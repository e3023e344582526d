import Stowage.Proofs.Relocation.Moving

set_option autoImplicit false

namespace Stowage.Carrier

theorem contents_of_missing {d : Disk} {place : Location} (missing : d.node? place = none) :
    d.contents place = none := by
  simp [Disk.contents, Disk.content?, missing]

theorem apart_of_missing {d : Disk} {place other : Location} (held : ∃ content, d.contents place = some content)
    (missing : d.node? other = none) : other ≠ place := by
  rintro rfl
  obtain ⟨content, own⟩ := held
  rw [contents_of_missing missing] at own
  cases own

theorem HasFile.apart {d : Disk} {p other : Path} (held : HasFile d p)
    (missing : d.node? (other.place d.home) = none) : other.place d.home ≠ p.place d.home :=
  apart_of_missing held.contents missing

theorem not_vacant_of_up (d : Disk) (regular : d.Regular) (p : Path)
    (up : p.components.getLast? = some .up) : ¬ d.Vacant p := by
  obtain ⟨filled, climbs⟩ := Path.last_step_of_up p up
  rintro (⟨-, name, last⟩ | ⟨content, mode, modified, found⟩)
  · exact climbs name last
  · obtain ⟨-, leads⟩ := (Disk.find_leads_iff d p _ _).1 found
    obtain ⟨place, mode, modified, folder⟩ := leads.folder_end regular filled climbs
    cases folder

theorem HasFile.not_up {d : Disk} (regular : d.Regular) {p : Path} (held : HasFile d p) :
    p.components.getLast? ≠ some .up :=
  fun up => not_vacant_of_up d regular p up (.inr held)

def Apart (d : Disk) (source destination : Path) : Prop :=
  destination.components.getLast? ≠ some .up -> destination.place d.home ≠ source.place d.home

theorem fresh_of_vacant (d : Disk) (p : Path) (vacant : d.Vacant p) (free : d.isThere p = false) :
    d.node? (p.place d.home) = none := by
  rcases vacant with ⟨missing, -⟩ | ⟨content, mode, modified, found⟩
  · exact missing
  · simp [Disk.isThere, found] at free

structure Brings (d : Disk) (source target : Path) (incomplete : Option RelocationError) (moved : Disk) :
    Prop where
  regular : d.Regular
  held : HasFile d source
  vacant : d.Vacant target
  apart : target.place d.home ≠ source.place d.home
  ran : moveFile d source target = .ok (incomplete, moved)

theorem Brings.brought {d moved : Disk} {source target : Path} {incomplete : Option RelocationError}
    (brings : Brings d source target incomplete moved) : Brought d moved source target :=
  moveFile_brought d brings.regular source target moved incomplete brings.apart brings.held brings.ran

theorem Brings.noted {carrier : Carrier} {d moved : Disk} {source target : Path} {ledger : Ledger}
    {decision : Decision} {backup : Option Path} {incomplete : Option RelocationError} {executed : Executed}
    {after : Site} (brings : Brings d source target incomplete moved)
    (noted : carrier.finish ⟨moved, ledger⟩ decision source target backup incomplete = (executed, after)) :
    Brought d after.disk source target ∧ after.ledger = ledger ++ [executed.entry] ∧
      ∃ time, executed.entry = ⟨.relocate decision, source, some target, backup, time⟩ := by
  obtain ⟨rfl, rfl⟩ := Prod.ext_iff.1 noted
  exact ⟨finish_brought carrier d moved ledger decision source target backup incomplete brings.apart brings.held
    brings.brought, finish_ledger .., finish_entry ..⟩

/-- The ways that carrying out a decision for a file can take. -/
inductive Went (carrier : Carrier) (site : Site) (source destination : Path) :
    Decision -> Except RelocationError Executed -> Site -> Prop
  | refused {decision : Decision} {error : RelocationError} :
    Went carrier site source destination decision (.error error) site
  | stopped {decision : Decision} {error : RelocationError} :
    Went carrier site source destination decision (.error error)
      { site with disk := (ensureParent site.disk destination).2 }
  | backed {copied : Disk} {kept : Path} {error : RelocationError}
    (beside : ∃ number, kept = carrier.siblingAt destination "backup" number)
    (fresh : site.disk.node? (kept.place site.disk.home) = none) (held : HasFile site.disk destination)
    (done : site.disk.copy destination kept = .ok copied) :
    Went carrier site source destination .updateNewer (.error error)
      ({ site with disk := copied }.record .backup destination (some kept) none).2
  | moved {moved : Disk} {incomplete : Option RelocationError} {executed : Executed} {after : Site}
    (brings : Brings (ensureParent site.disk destination).2 source destination incomplete moved)
    (noted : carrier.finish ⟨moved, site.ledger⟩ .move source destination none incomplete = (executed, after)) :
    Went carrier site source destination .move (.ok executed) after
  | updated {copied moved : Disk} {kept : Path} {incomplete : Option RelocationError} {executed : Executed}
    {after : Site} (beside : ∃ number, kept = carrier.siblingAt destination "backup" number)
    (fresh : site.disk.node? (kept.place site.disk.home) = none) (held : HasFile site.disk destination)
    (done : site.disk.copy destination kept = .ok copied)
    (brings : Brings copied source destination incomplete moved)
    (noted : carrier.finish ⟨moved, site.ledger⟩ .updateNewer source destination (some kept) incomplete =
      (executed, after)) :
    Went carrier site source destination .updateNewer (.ok executed) after
  | dropped {decision : Decision} {removed : Disk} {executed : Executed} {after : Site}
    (drops : decision = .skipOlder ∨ decision = .identical) (gone : site.disk.removeFile source = .ok removed)
    (noted : carrier.finish ⟨removed, site.ledger⟩ decision source destination none none = (executed, after)) :
    Went carrier site source destination decision (.ok executed) after
  | aside {moved : Disk} {review : Path} {incomplete : Option RelocationError} {executed : Executed}
    {after : Site} (beside : ∃ number, review = carrier.siblingAt destination "conflict" number)
    (fresh : (ensureParent site.disk destination).2.node?
      (review.place (ensureParent site.disk destination).2.home) = none)
    (brings : Brings (ensureParent site.disk destination).2 source review incomplete moved)
    (noted : carrier.finish ⟨moved, site.ledger⟩ .conflict source review none incomplete = (executed, after)) :
    Went carrier site source destination .conflict (.ok executed) after

section

variable (carrier : Carrier) (site : Site) (regular : site.disk.Regular) (source destination : Path)

include regular

theorem executeMove_went (apart : Apart site.disk source destination)
    (there : ∃ content, site.disk.contents (source.place site.disk.home) = some content) :
    Went carrier site source destination .move (carrier.executeMove site source destination).1
      (carrier.executeMove site source destination).2 := by
  have made := ensureParent_becomes site.disk regular destination
  have stopped : ∀ error, Went carrier site source destination .move (.error error)
      { site with disk := (ensureParent site.disk destination).2 } := fun _ => .stopped
  have moved := @Went.moved carrier site source destination
  unfold executeMove
  generalize ensureParent site.disk destination = parent at made stopped moved ⊢
  obtain ⟨outcome, mid⟩ := parent
  cases outcome with
  | error error => exact stopped error
  | ok =>
    simp only at made stopped moved ⊢
    cases ran : moveFile mid source destination with
    | error error => exact stopped error
    | ok result =>
      obtain ⟨incomplete, after⟩ := result
      rw [← made.held, ← made.later.home] at there
      have held' := moveFile_held mid made.later.regular source destination after incomplete there ran
      have vacant := moveFile_vacant mid made.later.regular source destination after incomplete held' ran
      have apart := apart fun up => not_vacant_of_up mid made.later.regular destination up vacant
      rw [← made.later.home] at apart
      exact moved ⟨made.later.regular, held', vacant, apart, ran⟩ rfl

theorem executeConflict_went
    (there : ∃ content, site.disk.contents (source.place site.disk.home) = some content) :
    Went carrier site source destination .conflict (carrier.executeConflict site source destination).1
      (carrier.executeConflict site source destination).2 := by
  have made := ensureParent_becomes site.disk regular destination
  have stopped : ∀ error, Went carrier site source destination .conflict (.error error)
      { site with disk := (ensureParent site.disk destination).2 } := fun _ => .stopped
  have aside := @Went.aside carrier site source destination
  unfold executeConflict
  generalize ensureParent site.disk destination = parent at made stopped aside ⊢
  obtain ⟨outcome, mid⟩ := parent
  cases outcome with
  | error error => exact stopped error
  | ok =>
    simp only at made stopped aside ⊢
    -- The name set aside is looked for once the directories are made, so it is free where the file comes.
    have free := carrier.sibling_free mid made.later.regular.toSound destination "conflict"
    have beside : ∃ number, carrier.sibling mid destination "conflict" =
      carrier.siblingAt destination "conflict" number := ⟨_, rfl⟩
    generalize carrier.sibling mid destination "conflict" = review at free beside ⊢
    cases ran : moveFile mid source review with
    | error error => exact stopped error
    | ok result =>
      obtain ⟨incomplete, after⟩ := result
      rw [← made.held, ← made.later.home] at there
      have held' := moveFile_held mid made.later.regular source review after incomplete there ran
      have vacant := moveFile_vacant mid made.later.regular source review after incomplete held' ran
      have fresh := fresh_of_vacant mid review vacant free
      exact aside beside fresh ⟨made.later.regular, held', vacant, held'.apart fresh, ran⟩ rfl

omit regular in
theorem executeDrop_went (decision : Decision) (drops : decision = .skipOlder ∨ decision = .identical) :
    Went carrier site source destination decision (carrier.executeDrop site decision source destination).1
      (carrier.executeDrop site decision source destination).2 := by
  unfold executeDrop
  cases gone : site.disk.removeFile source with
  | error problem => exact .refused
  | ok removed => exact .dropped drops gone rfl

theorem executeUpdate_went (apart : Apart site.disk source destination)
    (there : ∃ content, site.disk.contents (source.place site.disk.home) = some content) :
    Went carrier site source destination .updateNewer (carrier.executeUpdate site source destination).1
      (carrier.executeUpdate site source destination).2 := by
  unfold executeUpdate
  have free := carrier.sibling_free site.disk regular.toSound destination "backup"
  have beside : ∃ number, carrier.sibling site.disk destination "backup" =
    carrier.siblingAt destination "backup" number := ⟨_, rfl⟩
  simp only
  generalize carrier.sibling site.disk destination "backup" = kept at free beside ⊢
  cases done : site.disk.copy destination kept with
  | error problem => exact .refused
  | ok copied =>
    -- The copy is made at a place that was free, hence apart from the source and the destination.
    obtain ⟨vacant, other⟩ := Disk.copy_vacant site.disk regular destination kept copied done
    have fresh := fresh_of_vacant site.disk kept vacant free
    have becomes := Disk.copy_becomes site.disk regular destination kept copied
      (HasFile.apart other fresh) done
    simp only
    cases ran : moveFile copied source destination with
    | error error => exact .backed beside fresh other done
    | ok result =>
      obtain ⟨incomplete, moved⟩ := result
      have same : copied.contents _ = site.disk.contents _ :=
        becomes.content? _ (by simpa using Ne.symm (apart_of_missing there fresh))
      rw [← same, ← becomes.later.home] at there
      have held' := moveFile_held copied becomes.later.regular source destination moved incomplete there ran
      have apart := apart (HasFile.not_up regular other)
      rw [← becomes.later.home] at apart
      have vacant' := moveFile_vacant copied becomes.later.regular source destination moved incomplete held' ran
      exact .updated beside fresh other done ⟨becomes.later.regular, held', vacant', apart, ran⟩ rfl

theorem execute_went (decision : Decision) (apart : Apart site.disk source destination)
    (there : ∃ content, site.disk.contents (source.place site.disk.home) = some content) :
    Went carrier site source destination decision (carrier.execute site decision source destination).1
      (carrier.execute site decision source destination).2 := by
  unfold execute
  split
  · exact .refused
  · cases decision with
    | move => exact executeMove_went carrier site regular source destination apart there
    | updateNewer => exact executeUpdate_went carrier site regular source destination apart there
    | skipOlder => exact executeDrop_went carrier site source destination .skipOlder (.inl rfl)
    | identical => exact executeDrop_went carrier site source destination .identical (.inr rfl)
    | conflict => exact executeConflict_went carrier site regular source destination there

end

end Stowage.Carrier

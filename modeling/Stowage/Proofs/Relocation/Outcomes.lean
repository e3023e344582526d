import Stowage.Execution
import Stowage.Proofs.Relocation.Carrying

set_option autoImplicit false

namespace Stowage

/-- What an entry says of the files. -/
def LedgerEntry.replay (home : Location) (entry : LedgerEntry) (files : Files) : Files :=
  let source := entry.source.place home
  match entry.action, entry.destination, entry.backup with
  | .relocate .move, some destination, _ => files.carry source (destination.place home)
  | .relocate .updateNewer, some destination, some kept =>
    (files.copy (destination.place home) (kept.place home)).carry source (destination.place home)
  | .relocate .skipOlder, _, _ => files.drop source
  | .relocate .identical, _, _ => files.drop source
  | .relocate .conflict, some aside, _ => files.carry source (aside.place home)
  | .backup, some kept, _ => files.copy source (kept.place home)
  | _, _, _ => files

def Ledger.replay (home : Location) (ledger : Ledger) (files : Files) : Files :=
  ledger.foldl (fun files entry => entry.replay home files) files

namespace Carrier

/-- What may come of a decision for a file: an outcome, entries and a disk. -/
inductive Did (d : Disk) (source destination : Path) :
    Decision -> Except RelocationError Executed -> Ledger -> Disk -> Prop
  | refused {decision : Decision} {error : RelocationError} {after : Disk}
    (same : d.Becomes after [] d.contents) : Did d source destination decision (.error error) [] after
  | backed {error : RelocationError} {after : Disk} {kept : Path} {time : Instant}
    (fresh : d.node? (kept.place d.home) = none) (held : HasFile d destination)
    (copied : d.Becomes after [kept.place d.home]
      (d.contents.copy (destination.place d.home) (kept.place d.home))) :
    Did d source destination .updateNewer (.error error)
      [⟨.backup, destination, some kept, none, time⟩] after
  | moved {mid after : Disk} {executed : Executed} {time : Instant}
    (entry : executed.entry = ⟨.relocate .move, source, some destination, none, time⟩)
    (made : d.Becomes mid [] d.contents) (vacant : mid.Vacant destination)
    (brought : Brought mid after source destination) :
    Did d source destination .move (.ok executed) [executed.entry] after
  | updated {mid after : Disk} {executed : Executed} {kept : Path} {time : Instant}
    (entry : executed.entry = ⟨.relocate .updateNewer, source, some destination, some kept, time⟩)
    (fresh : d.node? (kept.place d.home) = none) (held : HasFile d destination)
    (copied : d.Becomes mid [kept.place d.home]
      (d.contents.copy (destination.place d.home) (kept.place d.home)))
    (brought : Brought mid after source destination) :
    Did d source destination .updateNewer (.ok executed) [executed.entry] after
  | dropped {decision : Decision} {after : Disk} {executed : Executed} {time : Instant}
    (drops : decision = .skipOlder ∨ decision = .identical)
    (entry : executed.entry = ⟨.relocate decision, source, some destination, none, time⟩)
    (removed : d.Becomes after [source.place d.home] (d.contents.drop (source.place d.home))) :
    Did d source destination decision (.ok executed) [executed.entry] after
  | aside {mid after : Disk} {executed : Executed} {review : Path} {time : Instant}
    (entry : executed.entry = ⟨.relocate .conflict, source, some review, none, time⟩)
    (made : d.Becomes mid [] d.contents) (fresh : mid.node? (review.place d.home) = none)
    (brought : Brought mid after source review) :
    Did d source destination .conflict (.ok executed) [executed.entry] after

theorem Went.did {carrier : Carrier} {site after : Site} (regular : site.disk.Regular)
    {source destination : Path} {decision : Decision} {outcome : Except RelocationError Executed}
    (went : Went carrier site source destination decision outcome after) :
    ∃ entries, after.ledger = site.ledger ++ entries ∧
      Did site.disk source destination decision outcome entries after.disk := by
  have made := ensureParent_becomes site.disk regular destination
  have copies : ∀ {kept copied}, site.disk.node? (kept.place site.disk.home) = none ->
      HasFile site.disk destination -> site.disk.copy destination kept = .ok copied ->
      site.disk.Becomes copied [kept.place site.disk.home]
        (site.disk.contents.copy (destination.place site.disk.home) (kept.place site.disk.home)) :=
    fun fresh other done => Disk.copy_becomes site.disk regular destination _ _ (other.apart fresh) done
  cases went with
  | refused => exact ⟨[], (List.append_nil _).symm, .refused (.refl regular)⟩
  | stopped => exact ⟨[], (List.append_nil _).symm, .refused made⟩
  | backed _ fresh other done => exact ⟨_, rfl, .backed fresh other (copies fresh other done)⟩
  | moved brings noted =>
    obtain ⟨brought, ledger, time, entry⟩ := brings.noted noted
    exact ⟨_, ledger, .moved entry made brings.vacant brought⟩
  | updated _ fresh other done brings noted =>
    obtain ⟨brought, ledger, time, entry⟩ := brings.noted noted
    exact ⟨_, ledger, .updated entry fresh other (copies fresh other done) brought⟩
  | dropped drops gone noted =>
    obtain ⟨removed, -⟩ := Disk.removeFile_becomes site.disk regular source _ gone
    obtain ⟨rfl, rfl⟩ := Prod.ext_iff.1 noted
    obtain ⟨time, entry⟩ := carrier.finish_entry ⟨_, site.ledger⟩ decision source destination none none
    refine ⟨_, finish_ledger .., .dropped drops entry ?_⟩
    -- A file that is dropped is marked nowhere.
    rwa [finish_disk]
    rcases drops with rfl | rfl <;> simp
  | aside _ fresh brings noted =>
    obtain ⟨brought, ledger, time, entry⟩ := brings.noted noted
    rw [made.later.home] at fresh
    exact ⟨_, ledger, .aside entry made fresh brought⟩

section

variable {d after : Disk} {source destination : Path} {decision : Decision}
  {outcome : Except RelocationError Executed} {entries : Ledger}

theorem Did.later (did : Did d source destination decision outcome entries after) : d.Later after := by
  cases did with
  | refused same => exact same.later
  | backed _ _ copied => exact copied.later
  | moved _ made _ brought | aside _ made _ brought => exact made.later.trans brought.later
  | updated _ _ _ copied brought => exact copied.later.trans brought.later
  | dropped _ _ removed => exact removed.later

theorem Brought.carried {d after : Disk} {origin target : Path} (movable : Movable d origin)
    (brought : Brought d after origin target) :
    after.contents = d.contents.carry (origin.place d.home) (target.place d.home) := by
  rcases brought with carried | ⟨stuck, -⟩
  · exact carried.held
  · exact absurd movable stuck

theorem Did.level (regular : d.Regular)
    (did : Did d source destination decision outcome entries after)
    (landed : ∃ executed, outcome = .ok executed) (lands : Project.lands decision = true) :
    destination.components.getLast? ≠ some .up := by
  cases did with
  | refused | backed =>
    obtain ⟨executed, impossible⟩ := landed
    cases impossible
  | moved _ made vacant _ =>
    exact fun up => not_vacant_of_up _ made.later.regular destination up vacant
  | updated _ _ held _ _ => exact held.not_up regular
  | dropped drops _ _ => rcases drops with rfl | rfl <;> cases lands
  | aside => cases lands

theorem Did.replayed (movable : Movable d source)
    (did : Did d source destination decision outcome entries after) :
    after.contents = Ledger.replay d.home entries d.contents := by
  have movable' : ∀ {mid : Disk}, d.Later mid -> Movable mid source := fun later =>
    ⟨later.privileged.trans movable.1, movable.2⟩
  cases did with
  | refused same => exact same.held
  | backed _ _ copied => exact copied.held
  | moved entry made _ brought | aside entry made _ brought =>
    rw [brought.carried (movable' made.later), made.held, made.later.home, entry]
    rfl
  | updated entry _ _ copied brought =>
    rw [brought.carried (movable' copied.later), copied.held, copied.later.home, entry]
    rfl
  | dropped drops entry removed =>
    rw [removed.held, entry]
    rcases drops with rfl | rfl <;> rfl

theorem Did.kept (did : Did d source destination decision outcome entries after) (place : Location)
    (node : Node) (held : d.file? place = some node) (other : place ≠ source.place d.home)
    (missed : (∃ executed, outcome = .ok executed) -> Project.lands decision = true ->
      place ≠ destination.place d.home) : after.file? place = some node := by
  have present := ((Disk.file?_eq_some_iff d place node).1 held).1
  have notFresh : ∀ fresh : Location, d.node? fresh = none -> place ≠ fresh := by
    rintro fresh missing rfl
    rw [missing] at present
    cases present
  -- Bringing the source to another place than this one leaves the file.
  have brings : ∀ {mid : Disk} {target : Path}, d.Later mid -> mid.file? place = some node ->
      place ≠ target.place d.home -> Brought mid after source target ->
      after.file? place = some node := by
    intro mid target later same apart brought
    have outside : place ∉ [source.place mid.home, target.place mid.home] := by
      rw [later.home]
      simp [other, apart]
    rcases brought with carried | ⟨-, copied⟩
    · rw [carried.kept place outside, same]
    · rw [copied.kept place outside, same]
  cases did with
  | refused same => rw [same.kept place (by simp), held]
  | backed fresh _ copied =>
    rw [copied.kept place (by simpa using notFresh _ fresh), held]
  | moved _ made _ brought =>
    have same := (made.kept place (by simp)).trans held
    exact brings made.later same (missed ⟨_, rfl⟩ rfl) brought
  | updated _ fresh _ copied brought =>
    have same := (copied.kept place (by simpa using notFresh _ fresh)).trans held
    exact brings copied.later same (missed ⟨_, rfl⟩ rfl) brought
  | dropped _ _ removed => rw [removed.kept place (by simpa using other), held]
  | aside _ made fresh brought =>
    have same := (made.kept place (by simp)).trans held
    refine brings made.later same ?_ brought
    rintro rfl
    have missing := ((Disk.file?_eq_some_iff _ _ node).1 same).1
    rw [fresh] at missing
    cases missing

theorem Brought.holds {d after : Disk} {origin target : Path} {content : ByteArray}
    (apart : target.place d.home ≠ origin.place d.home) (brought : Brought d after origin target)
    (safe : d.contents.Safe (target.place d.home) (origin.place d.home))
    (held : d.contents.Holds content) : after.contents.Holds content := by
  rcases brought with carried | ⟨-, copied⟩
  · rw [carried.held]
    exact held.carry apart safe
  · rw [copied.held]
    exact held.copy safe.self

theorem Did.holds (regular : d.Regular) (apart : Apart d source destination) (from' : HasFile d source)
    (did : Did d source destination decision outcome entries after)
    (open' : decision = .move -> destination.components.getLast? ≠ some .up ->
      d.contents (destination.place d.home) = none)
    (twice : decision = .identical ->
      d.contents.Safe (source.place d.home) (source.place d.home))
    (content : ByteArray) (held : d.contents.Holds content) :
    after.contents.Holds content ∨ decision = .skipOlder ∧ (∃ executed, outcome = .ok executed) ∧
      d.contents (source.place d.home) = some content := by
  cases did with
  | refused same =>
    rw [same.held]
    exact .inl held
  | backed fresh _ copied =>
    rw [copied.held]
    exact .inl (held.copy (Files.safe_of_none _ (contents_of_missing fresh)))
  | moved _ made vacant brought =>
    have level : destination.components.getLast? ≠ some .up := fun up =>
      not_vacant_of_up _ made.later.regular destination up vacant
    have apart := apart level
    rw [← made.later.home] at apart
    rw [← made.held] at held
    refine .inl (brought.holds apart (Files.safe_of_none _ ?_) held)
    rw [made.held, made.later.home]
    exact open' rfl level
  | @updated _ _ _ kept _ _ fresh other copied brought =>
    have held' : (d.contents.copy (destination.place d.home) (kept.place d.home)).Holds content :=
      held.copy (Files.safe_of_none _ (contents_of_missing fresh))
    rw [← copied.held] at held'
    have apart := apart (other.not_up regular)
    rw [← copied.later.home] at apart
    refine .inl (brought.holds apart ?_ held')
    -- The copy that was kept saves what the destination held.
    rw [copied.held, copied.later.home]
    intro old own
    refine ⟨kept.place d.home, other.apart fresh, from'.apart fresh, ?_⟩
    rw [Files.copy, Function.update_of_ne (Ne.symm (other.apart fresh))] at own
    rw [Files.copy, Function.update_self, own]
  | dropped drops _ removed =>
    rw [removed.held]
    rcases drops with rfl | rfl
    · -- Only the source itself may be lost.
      obtain ⟨place, own⟩ := held
      by_cases same : place = source.place d.home
      · subst same
        exact .inr ⟨rfl, ⟨_, rfl⟩, own⟩
      · exact .inl ⟨place, by rw [Files.drop, Function.update_of_ne same, own]⟩
    · exact .inl (held.drop (twice rfl))
  | aside _ made fresh brought =>
    rw [← made.held] at held
    rw [← made.later.home] at fresh
    have from'' := from'.later regular made (by simp)
    exact .inl (brought.holds (from''.apart fresh)
      (Files.safe_of_none _ (contents_of_missing fresh)) held)

theorem Did.held (did : Did d source destination decision outcome entries after) (content : ByteArray)
    (held : after.contents.Holds content) : d.contents.Holds content := by
  have brings : ∀ {mid : Disk} {target : Path}, Brought mid after source target ->
      mid.contents.Holds content := by
    rintro mid target (carried | ⟨-, copied⟩)
    · rw [carried.held] at held
      exact Files.holds_of_carry held
    · rw [copied.held] at held
      exact Files.holds_of_copy held
  cases did with
  | refused same =>
    rw [same.held] at held
    exact held
  | backed _ _ copied =>
    rw [copied.held] at held
    exact Files.holds_of_copy held
  | moved _ made _ brought | aside _ made _ brought =>
    rw [← made.held]
    exact brings brought
  | updated _ _ _ copied brought =>
    have earlier := brings brought
    rw [copied.held] at earlier
    exact Files.holds_of_copy earlier
  | dropped _ _ removed =>
    rw [removed.held] at held
    exact Files.holds_of_drop held

end

end Carrier

end Stowage

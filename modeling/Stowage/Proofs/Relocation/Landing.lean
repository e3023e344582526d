import Stowage.Proofs.Disk.Checking
import Stowage.Proofs.Relocation.Dropping
import Stowage.Proofs.Relocation.Leaving

set_option autoImplicit false

namespace Stowage

namespace Disk

def Stays (d after : Disk) (place : Location) : Prop :=
  Option.Rel Node.Alike (d.node? place) (after.node? place)

section

variable {d after : Disk} {place : Location}

theorem stays_of_later (regular : d.Regular) (later : d.Later after) (file : after.file? place = d.file? place)
    (folder : after.FolderAt place -> d.FolderAt place) : d.Stays after place := by
  unfold Stays
  cases found : d.node? place with
  | none =>
    cases found' : after.node? place with
    | none => exact .none
    | some node =>
      cases node with
      | folder mode modified =>
        obtain ⟨_, _, impossible⟩ := folder ⟨mode, modified, found'⟩
        cases found.symm.trans impossible
      | link target => exact absurd found' (later.regular.linkless place target)
      | file => simp [file?, found, found', Node.isFile] at file
  | some node =>
    cases node with
    | folder mode modified =>
      obtain ⟨other, found'⟩ := later.folders place mode modified found
      rw [found']
      exact .some rfl
    | link target => exact absurd found (regular.linkless place target)
    | file content mode modified =>
      rw [(file?_eq_some_iff d place _).2 ⟨found, rfl⟩] at file
      rw [((file?_eq_some_iff after place _).1 file).1]
      exact .some (.refl _)

theorem Stays.missing (stays : d.Stays after place) (missing : d.node? place = none) : after.node? place = none := by
  unfold Stays at stays
  rw [missing] at stays
  generalize after.node? place = node at stays ⊢
  cases stays
  rfl

theorem missing_of_gone {content : ByteArray} (regular : after.Regular) (held : d.contents place = some content)
    (folder : after.FolderAt place -> d.FolderAt place) (gone : after.contents place = none) :
    after.node? place = none := by
  cases found : after.node? place with
  | none => rfl
  | some node =>
    cases node with
    | folder mode modified =>
      obtain ⟨_, _, impossible⟩ := folder ⟨mode, modified, found⟩
      obtain ⟨_, _, own⟩ := (content?_eq_some_iff d place content).1 held
      cases own.symm.trans impossible
    | link target => exact absurd found (regular.linkless place target)
    | file content mode modified =>
      have own := (content?_eq_some_iff after place content).2 ⟨mode, modified, found⟩
      cases own.symm.trans gone

theorem Becomes.missing {files : Files} (regular : d.Regular) (becomes : d.Becomes after [] files)
    (missing : after.node? place = none) : d.node? place = none := by
  cases found : d.node? place with
  | none => rfl
  | some node =>
    cases node with
    | folder mode modified =>
      obtain ⟨other, found'⟩ := becomes.later.folders place mode modified found
      cases found'.symm.trans missing
    | link target => exact absurd found (regular.linkless place target)
    | file content mode modified =>
      have kept := (becomes.kept place (by simp)).trans ((file?_eq_some_iff d place _).2 ⟨found, rfl⟩)
      cases missing.symm.trans ((file?_eq_some_iff after place _).1 kept).1

end

end Disk

namespace Carrier

theorem moveFile_stuck (d : Disk) (regular : d.Regular) (origin target : Path) (moved : Disk) (error : RelocationError)
    (apart : target.place d.home ≠ origin.place d.home)
    (ran : moveFile d origin target = .ok (some error, moved)) :
    (∃ problem, error = .remove origin problem) ∧ moved.file? (origin.place d.home) = d.file? (origin.place d.home) := by
  cases moves_of_moveFile ran with
  | doubled done =>
    have becomes := Disk.copy_becomes d regular origin target moved apart done
    exact ⟨⟨_, rfl⟩, becomes.kept _ (by simpa using Ne.symm apart)⟩

theorem markExecutable_error (carrier : Carrier) (d : Disk) (p : Path) (error : RelocationError)
    (failed : carrier.markExecutable d p = .error error) : ∃ problem, error = .permissions p problem := by
  unfold markExecutable at failed
  simp only [ite_eq_iff] at failed
  rcases failed with ⟨-, failed⟩ | ⟨-, impossible⟩
  · split at failed
    · cases failed
    next problem _ =>
      cases failed
      exact ⟨problem, rfl⟩
  · cases impossible

theorem finish_incomplete (carrier : Carrier) (site : Site) (decision : Decision) (source landed : Path)
    (backup : Option Path) (incomplete : Option RelocationError) :
    ∃ failed : Option RelocationError,
      (carrier.finish site decision source landed backup incomplete).1.incomplete = incomplete.or failed ∧
      ∀ error ∈ failed, ∃ problem, error = .permissions landed problem := by
  unfold finish Site.record
  simp only
  split
  · split
    · exact ⟨none, rfl, by simp⟩
    next error failed =>
      refine ⟨some error, rfl, ?_⟩
      rintro _ ⟨rfl⟩
      exact carrier.markExecutable_error _ _ _ failed
  · exact ⟨none, rfl, by simp⟩

theorem finish_unstuck (carrier : Carrier) (site : Site) (decision : Decision) (source landed : Path)
    (backup : Option Path) (problem : DiskError) :
    (carrier.finish site decision source landed backup none).1.incomplete ≠ some (.remove source problem) := by
  obtain ⟨failed, told, permissions⟩ := carrier.finish_incomplete site decision source landed backup none
  rw [told, Option.none_or]
  intro stuck
  obtain ⟨_, impossible⟩ := permissions _ (Option.mem_def.2 stuck)
  cases impossible

structure Leaves (d after : Disk) (source : Path) (incomplete : Option RelocationError) : Prop where
  gone : (∀ problem, incomplete ≠ some (.remove source problem)) -> after.node? (source.place d.home) = none
  stuck : ∀ problem, incomplete = some (.remove source problem) ->
    after.file? (source.place d.home) = d.file? (source.place d.home)

theorem Leaves.earlier {d mid after : Disk} {source : Path} {incomplete : Option RelocationError}
    (home : mid.home = d.home) (same : mid.file? (source.place d.home) = d.file? (source.place d.home))
    (leaves : Leaves mid after source incomplete) : Leaves d after source incomplete := by
  obtain ⟨gone, stuck⟩ := leaves
  rw [home] at gone stuck
  exact ⟨gone, fun problem told => (stuck problem told).trans same⟩

section

variable {carrier : Carrier} {d moved : Disk} {source target : Path} {ledger : Ledger} {decision : Decision}
  {backup : Option Path} {incomplete : Option RelocationError} {executed : Executed} {after : Site}
  (brings : Brings d source target incomplete moved)
  (noted : carrier.finish ⟨moved, ledger⟩ decision source target backup incomplete = (executed, after))

include brings noted

theorem Brings.leaves : Leaves d after.disk source executed.incomplete := by
  have settled := brings.settled noted
  cases incomplete with
  | none =>
    refine ⟨fun _ => ?_, fun problem stuck => ?_⟩
    · obtain ⟨content, own⟩ := brings.held.contents
      refine Disk.missing_of_gone settled.later.regular own (fun found => ?_) (brings.gone noted rfl)
      exact ((brings.grows noted).folder _ found).resolve_right (by simp)
    · have unstuck := carrier.finish_unstuck ⟨moved, ledger⟩ decision source target backup problem
      rw [noted] at unstuck
      exact absurd stuck unstuck
  | some error =>
    obtain ⟨⟨problem, rfl⟩, kept⟩ := moveFile_stuck d brings.regular source target moved error brings.apart brings.ran
    obtain ⟨_, told, -⟩ := carrier.finish_incomplete ⟨moved, ledger⟩ decision source target backup
      (some (.remove source problem))
    rw [noted] at told
    refine ⟨fun complete => absurd told (complete problem), fun _ _ => ?_⟩
    rw [settled.kept _ (by simpa using Ne.symm brings.apart), kept]

theorem Brings.others (place : Location) (beyond : place ≠ source.place d.home) (beside : place ≠ target.place d.home) :
    after.disk.file? place = d.file? place := by
  obtain ⟨brought, -⟩ := brings.noted noted
  rcases brought with carried | ⟨-, copied⟩
  · exact carried.kept place (by simp [beyond, beside])
  · exact copied.kept place (by simp [beyond, beside])

theorem Brings.landed : after.disk.contents (target.place d.home) = d.contents (source.place d.home) := by
  obtain ⟨brought, -⟩ := brings.noted noted
  exact brought.landed brings.apart

end

/-- A relocation that did what its entry says: the content of its source is at `landed`, what stood at its
destination is at `kept` or stands there still, and all else is as it was. -/
structure Fulfils (carrier : Carrier) (site : Site) (decision : Decision) (source destination : Path)
    (content : ByteArray) (executed : Executed) (after : Site) (landed : Path) (kept : Option Path) : Prop where
  entry : ∃ time, executed.entry = ⟨.relocate decision, source, some landed, kept, time⟩
  ledger : after.ledger = site.ledger ++ [executed.entry]
  target : decision ≠ .conflict -> landed = destination
  brought : decision = .move ∨ decision = .updateNewer ∨ decision = .conflict ->
    after.disk.contents (landed.place site.disk.home) = some content
  backed : decision = .updateNewer ↔ kept.isSome = true
  backup : ∀ copy ∈ kept, site.disk.node? (copy.place site.disk.home) = none ∧
    ∃ old, site.disk.contents (destination.place site.disk.home) = some old ∧
      after.disk.contents (copy.place site.disk.home) = some old
  aside : decision = .conflict -> site.disk.node? (landed.place site.disk.home) = none
  unchanged : decision = .skipOlder ∨ decision = .identical ->
    site.disk.Stays after.disk (destination.place site.disk.home)
  -- A stamp may hold separators, and lead from the name of what is set aside back to the destination.
  spared : decision = .conflict ->
    (site.disk.Stays after.disk (destination.place site.disk.home) ↔
      landed.place site.disk.home ≠ destination.place site.disk.home)
  apart : decision = .conflict ->
    site.disk.node? (destination.place site.disk.home) ≠ none ∨ Path.separator ∉ carrier.stamp.toList ->
    landed.place site.disk.home ≠ destination.place site.disk.home
  leaves : Leaves site.disk after.disk source executed.incomplete
  others : ∀ place, place ≠ source.place site.disk.home -> place ≠ landed.place site.disk.home ->
    (∀ copy ∈ kept, place ≠ copy.place site.disk.home) -> after.disk.file? place = site.disk.file? place

section

variable {carrier : Carrier} {site after : Site} {source destination : Path} {content : ByteArray}
  {executed : Executed} (regular : site.disk.Regular)

include regular

theorem fulfils_dropped {decision : Decision} {removed : Disk} (drops : decision = .skipOlder ∨ decision = .identical)
    (apart : destination.place site.disk.home ≠ source.place site.disk.home)
    (gone : site.disk.removeFile source = .ok removed)
    (noted : carrier.finish ⟨removed, site.ledger⟩ decision source destination none none = (executed, after)) :
    Fulfils carrier site decision source destination content executed after destination none := by
  obtain ⟨becomes, bytes, mode, modified, found⟩ := Disk.removeFile_becomes site.disk regular source removed gone
  have unstuck := carrier.finish_unstuck ⟨removed, site.ledger⟩ decision source destination none
  obtain ⟨time, entry⟩ := carrier.finish_entry ⟨removed, site.ledger⟩ decision source destination none none
  have ledger := carrier.finish_ledger ⟨removed, site.ledger⟩ decision source destination none none
  have unmarked : decision ≠ .move ∧ decision ≠ .updateNewer ∧ decision ≠ .conflict := by
    rcases drops with rfl | rfl <;> simp
  have disk : after.disk = removed := by
    obtain ⟨-, rfl⟩ := Prod.ext_iff.1 noted
    exact finish_disk carrier ⟨removed, site.ledger⟩ decision source destination none none
      ⟨unmarked.1, unmarked.2.1⟩
  rw [noted] at unstuck entry ledger
  have folders : ∀ place, removed.FolderAt place -> site.disk.FolderAt place := fun place there =>
    ((Disk.removeFile_grows site.disk source removed gone).folder place there).resolve_right (by simp)
  have held : site.disk.contents (source.place site.disk.home) = some bytes :=
    (Disk.content?_eq_some_iff _ _ bytes).2 ⟨mode, modified, Disk.find_node _ source _ _ found⟩
  have left : removed.node? (source.place site.disk.home) = none :=
    Disk.missing_of_gone becomes.later.regular held (folders _)
      (by rw [becomes.held, Files.drop, Function.update_self])
  -- Removing the source is all that happens, and the destination is another place.
  have stays : site.disk.Stays removed (destination.place site.disk.home) :=
    Disk.stays_of_later regular becomes.later (becomes.kept _ (by simpa using apart)) (folders _)
  exact {
    entry := ⟨time, entry⟩
    ledger
    target := fun _ => rfl
    brought := by simp [unmarked]
    backed := by simp [unmarked]
    backup := by simp
    aside := by simp [unmarked]
    unchanged := fun _ => disk ▸ stays
    spared := by simp [unmarked]
    apart := by simp [unmarked]
    leaves := ⟨fun _ => disk ▸ left, fun problem stuck => absurd stuck (unstuck problem)⟩
    others := fun place beyond _ _ => disk ▸ becomes.kept place (by simpa using beyond) }

variable (own : site.disk.contents (source.place site.disk.home) = some content)

include own

theorem fulfils_moved {moved : Disk} {incomplete : Option RelocationError}
    (brings : Brings (ensureParent site.disk destination).2 source destination incomplete moved)
    (noted : carrier.finish ⟨moved, site.ledger⟩ .move source destination none incomplete = (executed, after)) :
    Fulfils carrier site .move source destination content executed after destination none := by
  have made := ensureParent_becomes site.disk regular destination
  generalize (ensureParent site.disk destination).2 = mid at made brings
  obtain ⟨-, ledger, entry⟩ := brings.noted noted
  have others := brings.others noted
  have landed := brings.landed noted
  rw [made.later.home] at others landed
  rw [made.held, own] at landed
  exact {
    entry, ledger
    target := fun _ => rfl
    brought := fun _ => landed
    backed := by simp
    backup := by simp
    aside := by simp
    unchanged := by simp
    spared := by simp
    apart := by simp
    leaves := (brings.leaves noted).earlier made.later.home (made.kept _ (by simp))
    others := fun place beyond beside _ => (others place beyond beside).trans (made.kept place (by simp)) }

theorem fulfils_updated {copied moved : Disk} {kept : Path} {incomplete : Option RelocationError}
    (fresh : site.disk.node? (kept.place site.disk.home) = none) (held : HasFile site.disk destination)
    (done : site.disk.copy destination kept = .ok copied) (brings : Brings copied source destination incomplete moved)
    (noted : carrier.finish ⟨moved, site.ledger⟩ .updateNewer source destination (some kept) incomplete =
      (executed, after)) :
    Fulfils carrier site .updateNewer source destination content executed after destination (some kept) := by
  have becomes := Disk.copy_becomes site.disk regular destination kept copied (held.apart fresh) done
  obtain ⟨old, stood⟩ := held.contents
  -- The copy is neither the source nor the destination, since nothing was there.
  have beyond := apart_of_missing ⟨content, own⟩ fresh
  obtain ⟨-, ledger, entry⟩ := brings.noted noted
  have others := brings.others noted
  have landed := brings.landed noted
  rw [becomes.later.home] at others landed
  rw [becomes.held, Files.copy, Function.update_of_ne (Ne.symm beyond), own] at landed
  have backup : after.disk.contents (kept.place site.disk.home) = some old := by
    have same : after.disk.contents _ = copied.contents _ :=
      Disk.content?_congr (others _ beyond (held.apart fresh))
    rw [same, becomes.held, Files.copy, Function.update_self, stood]
  exact {
    entry, ledger
    target := fun _ => rfl
    brought := fun _ => landed
    backed := by simp
    backup := by
      rintro _ ⟨rfl⟩
      exact ⟨fresh, old, stood, backup⟩
    aside := by simp
    unchanged := by simp
    spared := by simp
    apart := by simp
    leaves := (brings.leaves noted).earlier becomes.later.home (becomes.kept _ (by simpa using Ne.symm beyond))
    others := fun place beyond beside distinct =>
      (others place beyond beside).trans (becomes.kept place (by simpa using distinct kept rfl)) }

theorem fulfils_aside {moved : Disk} {review : Path} {incomplete : Option RelocationError}
    (normal : destination.Plain ∨ destination.Inner)
    (apart : destination.place site.disk.home ≠ source.place site.disk.home)
    (beside : ∃ number, review = carrier.siblingAt destination "conflict" number)
    (fresh : (ensureParent site.disk destination).2.node?
      (review.place (ensureParent site.disk destination).2.home) = none)
    (brings : Brings (ensureParent site.disk destination).2 source review incomplete moved)
    (noted : carrier.finish ⟨moved, site.ledger⟩ .conflict source review none incomplete = (executed, after)) :
    Fulfils carrier site .conflict source destination content executed after review none := by
  have made := ensureParent_becomes site.disk regular destination
  have grows := ensureParent_grows site.disk regular destination
  generalize (ensureParent site.disk destination).2 = mid at made grows fresh brings
  obtain ⟨brought, ledger, entry⟩ := brings.noted noted
  have others := brings.others noted
  have landed := brings.landed noted
  rw [made.later.home] at others landed fresh
  rw [made.held, own] at landed
  have fresh := made.missing regular fresh
  -- No directory is made at the destination, which is not above itself.
  have folder : after.disk.FolderAt (destination.place site.disk.home) ->
      site.disk.FolderAt (destination.place site.disk.home) := by
    intro found
    have found := ((brings.grows noted).folder _ found).resolve_right (by simp)
    exact (grows.folder _ found).resolve_right (Path.place_not_mem_above normal _)
  exact {
    entry, ledger
    target := by simp
    brought := fun _ => landed
    backed := by simp
    backup := by simp
    aside := fun _ => fresh
    unchanged := by simp
    spared := by
      refine fun _ => ⟨fun stays same => ?_, fun differs => ?_⟩
      · rw [← same] at stays
        rw [contents_of_missing (stays.missing fresh)] at landed
        cases landed
      · exact Disk.stays_of_later regular (made.later.trans brought.later)
          ((others _ apart (Ne.symm differs)).trans (made.kept _ (by simp))) folder
    apart := by
      rintro - (stood | stamp) same
      · exact stood (same ▸ fresh)
      · obtain ⟨number, rfl⟩ := beside
        exact carrier.siblingAt_apart stamp "conflict" (by simp) site.disk.home normal number same
    leaves := (brings.leaves noted).earlier made.later.home (made.kept _ (by simp))
    others := fun place beyond beside _ => (others place beyond beside).trans (made.kept place (by simp)) }

end

/-- A relocation that succeeds does what its entry says. -/
theorem relocation_fulfils (carrier : Carrier) (site : Site) (regular : site.disk.Regular) (decision : Decision)
    (source destination : Path) (normal : destination.Plain ∨ destination.Inner)
    (apart : destination.place site.disk.home ≠ source.place site.disk.home) (content : ByteArray)
    (own : site.disk.contents (source.place site.disk.home) = some content) (executed : Executed) (after : Site)
    (ran : carrier.execute site decision source destination = (.ok executed, after)) :
    ∃ landed kept, Fulfils carrier site decision source destination content executed after landed kept := by
  have went := carrier.execute_went site regular source destination decision (fun _ => apart) ⟨content, own⟩
  rw [ran] at went
  cases went with
  | moved brings noted => exact ⟨_, _, fulfils_moved regular own brings noted⟩
  | updated _ fresh held done brings noted => exact ⟨_, _, fulfils_updated regular own fresh held done brings noted⟩
  | dropped drops gone noted => exact ⟨_, _, fulfils_dropped regular drops apart gone noted⟩
  | aside beside fresh brings noted =>
    exact ⟨_, _, fulfils_aside regular own normal apart beside fresh brings noted⟩

def heldFast : Disk :=
  { stagedTwice.put ["downloads"] (.folder 0o555 ⟨1, 0⟩) with privileged := false }

theorem update_fulfilled : ∃ executed after landed kept,
    Carrier.execute ⟨"s", []⟩ ⟨heldFast, []⟩ .updateNewer ⟨"/downloads/a.ts"⟩ ⟨"/src/a.ts"⟩ =
      (.ok executed, after) ∧ executed.incomplete.isSome = true ∧
    Fulfils ⟨"s", []⟩ ⟨heldFast, []⟩ .updateNewer ⟨"/downloads/a.ts"⟩ ⟨"/src/a.ts"⟩ "export {};".toUTF8 executed
      after landed kept := by
  have regular : heldFast.Regular := by decide +kernel
  have stuck : ((Carrier.execute ⟨"s", []⟩ ⟨heldFast, []⟩ .updateNewer ⟨"/downloads/a.ts"⟩
      ⟨"/src/a.ts"⟩).1.toOption.bind Executed.incomplete).isSome = true := by decide +kernel
  have own : heldFast.contents ((Path.mk "/downloads/a.ts").place heldFast.home) = some "export {};".toUTF8 := by
    decide +kernel
  cases ran : Carrier.execute ⟨"s", []⟩ ⟨heldFast, []⟩ .updateNewer ⟨"/downloads/a.ts"⟩ ⟨"/src/a.ts"⟩ with
  | mk outcome after =>
    rw [ran] at stuck
    cases outcome with
    | error => cases stuck
    | ok executed =>
      obtain ⟨landed, kept, fulfils⟩ := relocation_fulfils _ _ regular _ _ _ (.inl (by decide +kernel))
        (by decide +kernel) _ own executed after ran
      exact ⟨executed, after, landed, kept, rfl, stuck, fulfils⟩

def stagedBeside : Disk :=
  ((((⟨.bare, [], true, ⟨5, 0⟩⟩ : Disk).put [] (.folder 0o755 ⟨1, 0⟩)).put ["src"]
    (.folder 0o755 ⟨1, 0⟩)).put ["src", "a.conflict.x"] (.folder 0o755 ⟨1, 0⟩)).put ["downloads"]
    (.folder 0o755 ⟨1, 0⟩) |>.put ["downloads", "b.ts"] (.file "export {};".toUTF8 0o644 ⟨2, 0⟩)

theorem not_conflict_always_spares : ¬ ∀ (carrier : Carrier) (site : Site) (source destination : Path)
      (content : ByteArray) (executed : Executed) (after : Site), site.disk.Regular ->
      destination.Plain ∨ destination.Inner -> destination.place site.disk.home ≠ source.place site.disk.home ->
      site.disk.contents (source.place site.disk.home) = some content ->
      carrier.execute site .conflict source destination = (.ok executed, after) ->
      site.disk.Stays after.disk (destination.place site.disk.home) := by
  intro spares
  have regular : stagedBeside.Regular := by decide +kernel
  have own : stagedBeside.contents ((Path.mk "/downloads/b.ts").place stagedBeside.home) =
      some "export {};".toUTF8 := by decide +kernel
  have missing : stagedBeside.node? ((Path.mk "/src/a.ts").place stagedBeside.home) = none :=
    Option.isNone_iff_eq_none.1 (by decide +kernel)
  have carried : (Carrier.execute ⟨"x/../a", []⟩ ⟨stagedBeside, []⟩ .conflict ⟨"/downloads/b.ts"⟩
      ⟨"/src/a.ts"⟩).1.toOption.isSome = true := by decide +kernel
  have there : ((Carrier.execute ⟨"x/../a", []⟩ ⟨stagedBeside, []⟩ .conflict ⟨"/downloads/b.ts"⟩
      ⟨"/src/a.ts"⟩).2.disk.node? ((Path.mk "/src/a.ts").place stagedBeside.home)).isSome = true := by
    decide +kernel
  obtain ⟨executed, done⟩ := Option.isSome_iff_exists.1 carried
  have stays := spares ⟨"x/../a", []⟩ ⟨stagedBeside, []⟩ ⟨"/downloads/b.ts"⟩ ⟨"/src/a.ts"⟩ _ executed _ regular
    (.inl (by decide +kernel)) (by decide +kernel) own (Prod.ext (Except.eq_ok_of_toOption done) rfl)
  rw [stays.missing missing] at there
  cases there

end Carrier

end Stowage

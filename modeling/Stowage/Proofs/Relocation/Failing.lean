import Stowage.Proofs.Disk.Checking
import Stowage.Proofs.Relocation.Dropping
import Stowage.Proofs.Relocation.Noting
import Stowage.Proofs.Relocation.Spreading

set_option autoImplicit false

namespace Stowage.Carrier

section

variable {carrier : Carrier} {site after : Site} {source destination : Path} {decision : Decision}
  {kept : Option Path}

/-- A relocation after which all files are as they were, and what is new is accounted for. -/
structure Spares (carrier : Carrier) (site : Site) (decision : Decision) (destination : Path)
    (kept : Option Path) (after : Site) : Prop where
  file : ∀ place node, site.disk.file? place = some node -> after.disk.file? place = some node
  folder : ∀ place mode modified, site.disk.node? place = some (.folder mode modified) ->
    ∃ later, after.disk.node? place = some (.folder mode later)
  new : ∀ place node, after.disk.node? place = some node -> site.disk.node? place = none ->
    (node.isFolder = true ∧ place ∈ destination.above site.disk.home) ∨
      ∃ copy ∈ kept, place = copy.place site.disk.home
  copy : ∀ copy ∈ kept, decision = .updateNewer ∧
    (∃ number, copy = carrier.siblingAt destination "backup" number) ∧
    site.disk.node? (copy.place site.disk.home) = none ∧
    ∃ content, site.disk.contents (destination.place site.disk.home) = some content ∧
      after.disk.contents (copy.place site.disk.home) = some content
  ledger : after.ledger = site.ledger ++
    kept.toList.map fun copy => ⟨.backup, destination, some copy, none, site.disk.now⟩

theorem new_of_grows {d after : Disk} (regular : after.Regular) {folders files : Set Location}
    (grows : d.Grows after folders files) (place : Location) (node : Node)
    (found : after.node? place = some node) (missing : d.node? place = none) :
    (node.isFolder = true ∧ place ∈ folders) ∨ place ∈ files := by
  cases node with
  | folder mode modified =>
    rcases grows.folder place ⟨mode, modified, found⟩ with ⟨_, _, there⟩ | within
    · cases missing.symm.trans there
    · exact .inl ⟨rfl, within⟩
  | file content mode modified =>
    have filed := (Disk.file?_eq_some_iff after place _).2 ⟨found, rfl⟩
    rcases grows.file place (Option.isSome_of_eq_some filed) with there | within
    · simp [Disk.file?, missing] at there
    · exact .inr within
  | link target => exact absurd found (regular.linkless place target)

theorem refused_spares : Spares carrier site decision destination none site where
  file _ _ held := held
  folder _ _ modified found := ⟨modified, found⟩
  new _ _ found missing := by cases missing.symm.trans found
  copy := by simp
  ledger := by simp

theorem stopped_spares (regular : site.disk.Regular) :
    Spares carrier site decision destination none
      { site with disk := (ensureParent site.disk destination).2 } := by
  have made := ensureParent_becomes site.disk regular destination
  have grows := ensureParent_grows site.disk regular destination
  exact {
    file := fun place node held => (made.kept place (by simp)).trans held
    folder := made.later.folders
    new := fun place node found missing =>
      (new_of_grows made.later.regular grows place node found missing).imp_right (absurd · (by simp))
    copy := by simp
    ledger := by simp }

theorem backed_spares (regular : site.disk.Regular) {copied : Disk}
    (done : site.disk.copy destination (carrier.sibling site.disk destination "backup") = .ok copied) :
    Spares carrier site .updateNewer destination (some (carrier.sibling site.disk destination "backup"))
      ({ site with disk := copied }.record .backup destination
        (some (carrier.sibling site.disk destination "backup")) none).2 := by
  have beside : ∃ number, carrier.sibling site.disk destination "backup" =
    carrier.siblingAt destination "backup" number := ⟨_, rfl⟩
  have free := carrier.sibling_free site.disk regular.toSound destination "backup"
  generalize carrier.sibling site.disk destination "backup" = copy at beside free done ⊢
  -- Nothing is overwritten, since nothing was at the name of the copy.
  obtain ⟨vacant, held⟩ := Disk.copy_vacant site.disk regular destination copy copied done
  have fresh := fresh_of_vacant site.disk copy vacant free
  have becomes := Disk.copy_becomes site.disk regular destination copy copied (HasFile.apart held fresh) done
  have grows := Disk.copy_grows site.disk regular destination copy copied done
  obtain ⟨content, own⟩ := HasFile.contents held
  refine ⟨fun place node found => ?_, becomes.later.folders, fun place node found missing => ?_, ?_, ?_⟩
  · have apart : place ≠ copy.place site.disk.home := by
      rintro rfl
      simp [Disk.file?, fresh] at found
    exact (becomes.kept place (by simpa using apart)).trans found
  · rcases new_of_grows becomes.later.regular grows place node found missing with ⟨-, none⟩ | here
    · cases none
    · exact .inr ⟨copy, rfl, here⟩
  · rintro _ ⟨rfl⟩
    refine ⟨rfl, beside, fresh, content, own, ?_⟩
    change copied.contents _ = _
    rw [becomes.held, Files.copy, Function.update_self, own]
  · simp [Site.record, becomes.later.now]

theorem Failed.spares (regular : site.disk.Regular) (failed : Failed carrier site destination decision after) :
    ∃ kept, Spares carrier site decision destination kept after := by
  cases failed with
  | refused => exact ⟨_, refused_spares⟩
  | stopped => exact ⟨_, stopped_spares regular⟩
  | backed done => exact ⟨_, backed_spares regular done⟩

/-- A relocation that fails spares all files, and keeps at most one copy of what is at its destination. -/
theorem failed_relocation_spares (carrier : Carrier) (site : Site) (regular : site.disk.Regular)
    (decision : Decision) (source destination : Path) (error : RelocationError) (after : Site)
    (failed : carrier.execute site decision source destination = (.error error, after)) :
    ∃ kept, Spares carrier site decision destination kept after := by
  have ended := carrier.execute_ended site decision source destination
  rw [failed] at ended
  cases ended with
  | failed way => exact way.spares regular

theorem failed_update_keeps_copy : ∃ error after kept,
    Carrier.execute ⟨"s", []⟩ ⟨stagedTwice, []⟩ .updateNewer ⟨"/downloads/b.ts"⟩ ⟨"/src/a.ts"⟩ =
      (.error error, after) ∧
    Spares ⟨"s", []⟩ ⟨stagedTwice, []⟩ .updateNewer ⟨"/src/a.ts"⟩ (some kept) after := by
  have regular : stagedTwice.Regular := by decide +kernel
  have failed : (Carrier.execute ⟨"s", []⟩ ⟨stagedTwice, []⟩ .updateNewer ⟨"/downloads/b.ts"⟩
      ⟨"/src/a.ts"⟩).1.toOption.isSome = false := by decide +kernel
  have noted : (Carrier.execute ⟨"s", []⟩ ⟨stagedTwice, []⟩ .updateNewer ⟨"/downloads/b.ts"⟩
      ⟨"/src/a.ts"⟩).2.ledger.length = 1 := by decide +kernel
  cases ran : Carrier.execute ⟨"s", []⟩ ⟨stagedTwice, []⟩ .updateNewer ⟨"/downloads/b.ts"⟩ ⟨"/src/a.ts"⟩ with
  | mk outcome after =>
    rw [ran] at failed noted
    cases outcome with
    | ok => cases failed
    | error error =>
      obtain ⟨kept, spares⟩ := failed_relocation_spares _ _ regular _ _ _ error after ran
      cases kept with
      | none => simp [spares.ledger] at noted
      | some kept => exact ⟨error, after, kept, rfl, spares⟩

end

end Stowage.Carrier

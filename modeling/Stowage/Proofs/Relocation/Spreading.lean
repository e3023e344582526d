import Stowage.Proofs.Disk.Growing
import Stowage.Proofs.Relocation.Outcomes

set_option autoImplicit false

namespace Stowage

theorem Site.createDir_grows (site : Site) (regular : site.disk.Regular) (dir : Path) (plain : dir.Plain) :
    site.disk.Grows (site.createDir dir).2.disk {place | place <+: dir.place site.disk.home} ∅ := by
  have made := (Disk.makeFolders_grows site.disk regular dir).more (plain.way _) subset_rfl
  unfold createDir
  split
  · exact .refl _ _ _
  · generalize site.disk.makeFolders dir = outcome at made ⊢
    obtain ⟨result, disk⟩ := outcome
    cases result <;> exact made

namespace Carrier

def siblingPlaces (carrier : Carrier) (home : Location) (destination : Path) : Set Location :=
  {place | ∃ label ∈ ["backup", "conflict"], ∃ number,
    place = (carrier.siblingAt destination label number).place home}

theorem ensureParent_grows (d : Disk) (regular : d.Regular) (path : Path) :
    d.Grows (ensureParent d path).2 (path.above d.home) ∅ := by
  unfold ensureParent
  split
  · exact .refl _ _ _
  next parent known =>
    have made := (Disk.makeFolders_grows d regular parent).more
      (fun place through => show place ∈ path.above d.home from ⟨parent, known, through⟩) subset_rfl
    split <;> simp_all

theorem moveFile_grows (d : Disk) (regular : d.Regular) (origin target : Path) (moved : Disk)
    (incomplete : Option RelocationError) (apart : target.place d.home ≠ origin.place d.home)
    (held : HasFile d origin) (ran : moveFile d origin target = .ok (incomplete, moved)) :
    d.Grows moved ∅ {target.place d.home} := by
  obtain ⟨content, mode, modified, found⟩ := held
  cases moves_of_moveFile ran with
  | renamed done => exact Disk.rename?_grows d regular origin target content mode modified moved apart found done
  | doubled done => exact Disk.copy_grows d regular origin target moved done
  | replaced done gone =>
    exact (Disk.copy_grows d regular origin target _ done).trans
      ((Disk.removeFile_grows _ origin moved gone).more subset_rfl (Set.empty_subset _))

theorem finish_grows (carrier : Carrier) (site : Site) (regular : site.disk.Regular) (decision : Decision)
    (source landed : Path) (backup : Option Path) (incomplete : Option RelocationError) :
    site.disk.Grows (carrier.finish site decision source landed backup incomplete).2.disk ∅ ∅ := by
  rcases carrier.finish_marks site decision source landed backup incomplete with same | marked
  · rw [same]
    exact .refl _ _ _
  · exact Disk.setMode_grows site.disk regular landed _ _ marked

theorem Brings.grows {carrier : Carrier} {d moved : Disk} {source target : Path} {ledger : Ledger}
    {decision : Decision} {backup : Option Path} {incomplete : Option RelocationError} {executed : Executed}
    {after : Site} (brings : Brings d source target incomplete moved)
    (noted : carrier.finish ⟨moved, ledger⟩ decision source target backup incomplete = (executed, after)) :
    d.Grows after.disk ∅ {target.place d.home} := by
  have moves := moveFile_grows d brings.regular source target moved incomplete brings.apart brings.held
    brings.ran
  obtain ⟨-, rfl⟩ := Prod.ext_iff.1 noted
  exact moves.trans ((carrier.finish_grows ⟨moved, ledger⟩ brings.brought.later.regular decision source target
    backup incomplete).more subset_rfl (Set.empty_subset _))

theorem Went.grows {carrier : Carrier} {site after : Site} (regular : site.disk.Regular)
    {source destination : Path} (cases : destination.Plain ∨ destination.Climbs) {decision : Decision}
    {outcome : Except RelocationError Executed}
    (went : Went carrier site source destination decision outcome after) :
    site.disk.Grows after.disk {place | place <+: destination.names}
      (insert (destination.place site.disk.home) (carrier.siblingPlaces site.disk.home destination)) := by
  have made := (ensureParent_grows site.disk regular destination).more (Path.above_cases cases _) subset_rfl
  have later := (ensureParent_becomes site.disk regular destination).later
  have copies : ∀ {kept copied}, (∃ number, kept = carrier.siblingAt destination "backup" number) ->
      site.disk.copy destination kept = .ok copied ->
      site.disk.Grows copied ∅ (carrier.siblingPlaces site.disk.home destination) := by
    rintro kept copied ⟨number, rfl⟩ done
    exact (Disk.copy_grows site.disk regular destination _ copied done).more subset_rfl
      (Set.singleton_subset_iff.2 ⟨"backup", by simp, number, rfl⟩)
  -- Folders appear above the destination only; files appear there and among its siblings.
  cases went with
  | refused => exact .refl _ _ _
  | stopped => exact made.more subset_rfl (Set.empty_subset _)
  | backed beside _ _ done => exact (copies beside done).more (Set.empty_subset _) (Set.subset_insert _ _)
  | moved brings noted =>
    have grows := brings.grows noted
    rw [later.home] at grows
    exact (made.more subset_rfl (Set.empty_subset _)).trans
      (grows.more (Set.empty_subset _) (Set.singleton_subset_iff.2 (Set.mem_insert _ _)))
  | updated beside fresh other done brings noted =>
    have becomes := Disk.copy_becomes site.disk regular destination _ _ (other.apart fresh) done
    have grows := brings.grows noted
    rw [becomes.later.home] at grows
    exact ((copies beside done).more (Set.empty_subset _) (Set.subset_insert _ _)).trans
      (grows.more (Set.empty_subset _) (Set.singleton_subset_iff.2 (Set.mem_insert _ _)))
  | dropped _ gone noted =>
    obtain ⟨becomes, -⟩ := Disk.removeFile_becomes site.disk regular source _ gone
    obtain ⟨-, rfl⟩ := Prod.ext_iff.1 noted
    exact ((Disk.removeFile_grows site.disk source _ gone).trans (carrier.finish_grows ⟨_, site.ledger⟩
      becomes.later.regular decision source destination none none)).more (Set.empty_subset _)
        (Set.empty_subset _)
  | aside beside _ brings noted =>
    obtain ⟨number, rfl⟩ := beside
    have grows := brings.grows noted
    rw [later.home] at grows
    have among : (carrier.siblingAt destination "conflict" number).place site.disk.home ∈
      carrier.siblingPlaces site.disk.home destination := ⟨"conflict", by simp, number, rfl⟩
    exact (made.more subset_rfl (Set.empty_subset _)).trans
      (grows.more (Set.empty_subset _) (Set.singleton_subset_iff.2 (Set.mem_insert_of_mem _ among)))

end Carrier

end Stowage

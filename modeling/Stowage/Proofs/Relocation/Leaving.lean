import Stowage.Proofs.Disk.Walks
import Stowage.Proofs.Relocation.Labels

set_option autoImplicit false

namespace Stowage.Carrier

theorem moveFile_gone (d : Disk) (regular : d.Regular) (origin target : Path) (moved : Disk)
    (apart : target.place d.home ≠ origin.place d.home) (held : HasFile d origin)
    (ran : moveFile d origin target = .ok (none, moved)) : moved.contents (origin.place d.home) = none := by
  cases moves_of_moveFile ran with
  | renamed done =>
    obtain ⟨content, mode, modified, found⟩ := held
    have becomes := Disk.rename?_becomes d regular origin target content mode modified moved apart found done
    rw [becomes.held, Files.carry, Files.drop, Function.update_self]
  | replaced done gone =>
    have becomes := Disk.copy_becomes d regular origin target _ apart done
    obtain ⟨left, -⟩ := Disk.removeFile_becomes _ becomes.later.regular origin moved gone
    rw [left.held, becomes.later.home, Files.drop, Function.update_self]

section

variable {carrier : Carrier} {d moved : Disk} {source target : Path} {ledger : Ledger} {decision : Decision}
  {backup : Option Path} {incomplete : Option RelocationError} {executed : Executed} {after : Site}
  (brings : Brings d source target incomplete moved)
  (noted : carrier.finish ⟨moved, ledger⟩ decision source target backup incomplete = (executed, after))

include brings noted

theorem Brings.settled : moved.Becomes after.disk [target.place d.home] moved.contents := by
  obtain ⟨content, own⟩ := brings.brought.contents brings.held brings.apart
  rw [← brings.brought.later.home] at own ⊢
  exact finish_becomes carrier ⟨moved, ledger⟩ brings.brought.later.regular decision source target backup incomplete
    _ after content own noted

theorem Brings.gone (complete : incomplete = none) : after.disk.contents (source.place d.home) = none := by
  have ran := brings.ran
  rw [complete] at ran
  rw [(brings.settled noted).held]
  exact moveFile_gone d brings.regular source target moved brings.apart brings.held ran

end

theorem Went.gone {carrier : Carrier} {site after : Site} (regular : site.disk.Regular)
    {source destination : Path} {decision : Decision} {executed : Executed}
    (went : Went carrier site source destination decision (.ok executed) after)
    (complete : executed.incomplete = none) : after.disk.contents (source.place site.disk.home) = none := by
  have leaves : ∀ {d moved target backup incomplete}, site.disk.home = d.home ->
      Brings d source target incomplete moved ->
      carrier.finish ⟨moved, site.ledger⟩ decision source target backup incomplete = (executed, after) ->
      after.disk.contents (source.place site.disk.home) = none := by
    intro d moved target backup incomplete home brings noted
    rw [home]
    refine brings.gone noted ?_
    obtain ⟨rfl, -⟩ := Prod.ext_iff.1 noted
    exact (Option.or_eq_none_iff.1 complete).1
  have made := ensureParent_becomes site.disk regular destination
  cases went with
  | moved brings noted | aside _ _ brings noted => exact leaves made.later.home.symm brings noted
  | updated _ fresh other done brings noted =>
    have becomes := Disk.copy_becomes site.disk regular destination _ _ (other.apart fresh) done
    exact leaves becomes.later.home.symm brings noted
  | dropped drops gone noted =>
    obtain ⟨becomes, -⟩ := Disk.removeFile_becomes site.disk regular source _ gone
    obtain ⟨-, rfl⟩ := Prod.ext_iff.1 noted
    rw [finish_disk]
    · rw [becomes.held, Files.drop, Function.update_self]
    · rcases drops with rfl | rfl <;> simp

theorem Went.kept {carrier : Carrier} {site after : Site} {source destination : Path} {decision : Decision}
    {executed : Executed} (went : Went carrier site source destination decision (.ok executed) after)
    (kept : Path) (among : kept ∈ executed.entry.backup) :
    ∃ number, kept = carrier.siblingAt destination "backup" number := by
  cases went with
  | updated beside _ _ _ _ noted =>
    obtain ⟨rfl, -⟩ := Prod.ext_iff.1 noted
    obtain rfl := Option.some.inj among
    exact beside
  | moved _ noted | dropped _ _ noted | aside _ _ _ noted =>
    -- Nothing else keeps a copy.
    obtain ⟨rfl, -⟩ := Prod.ext_iff.1 noted
    cases among

theorem HasFile.filled {d : Disk} (regular : d.Regular) {p : Path} (held : HasFile d p) :
    p.place d.home ≠ [] := by
  obtain ⟨content, mode, modified, found⟩ := held
  intro root
  obtain ⟨mode', modified', folder⟩ := regular.rooted
  rw [(Disk.find_place d regular p _ _ found).1, root] at found
  cases folder.symm.trans (Disk.find_node d p _ _ found)

theorem not_below_of_beside (carrier : Carrier) (stamp : Path.separator ∉ carrier.stamp.toList) (label : String)
    (known : label ∈ ["backup", "conflict"]) (home : Location) {folder path other : Path} (plain : path.Plain)
    (filled : path.place home ≠ []) (outside : ¬ folder.Below path) (plain' : other.Plain) (number : Nat)
    (beside : (carrier.siblingAt path label number).place home = other.place home) : ¬ folder.Below other := by
  rintro ⟨names, below, spelt⟩
  obtain ⟨above, name, own⟩ := (List.eq_nil_or_concat' _).resolve_left filled
  obtain ⟨front, last, rfl⟩ := (List.eq_nil_or_concat' names).resolve_left below
  rw [carrier.siblingAt_beside stamp label known home path plain above name own number] at beside
  rw [plain'.components home, ← beside, List.map_append, List.map_append, ← List.cons_append,
    ← List.append_assoc] at spelt
  refine outside ⟨front ++ [name], by simp, ?_⟩
  rw [plain.components home, own, List.map_append, List.map_append, ← List.cons_append, ← List.append_assoc,
    List.append_inj_left' spelt rfl]

section

variable {d after : Disk} {source destination : Path} {decision : Decision}

theorem Did.backed_of_kept {executed : Executed} {entries : Ledger}
    (did : Did d source destination decision (.ok executed) entries after) (kept : Path)
    (among : kept ∈ executed.entry.backup) : Project.lands decision = true ∧ HasFile d destination := by
  cases did with
  | updated _ _ held => exact ⟨rfl, held⟩
  | moved entry | dropped _ entry | aside entry =>
    rw [entry] at among
    cases among

theorem Did.entries_eq {executed : Executed} {entries : Ledger}
    (did : Did d source destination decision (.ok executed) entries after) : entries = [executed.entry] := by
  cases did <;> rfl

theorem Brought.origin {origin target : Path} (brought : Brought d after origin target) (place : Location)
    (content : ByteArray) (held : after.contents place = some content) :
    place = target.place d.home ∧ d.contents (origin.place d.home) = some content ∨
      place ≠ target.place d.home ∧ d.contents place = some content := by
  have copied : (d.contents.copy (origin.place d.home) (target.place d.home)) place = some content := by
    rcases brought with carried | ⟨-, copied⟩
    · rw [carried.held, Files.carry, Files.drop, Function.update_apply] at held
      split at held
      · cases held
      · exact held
    · rw [← copied.held, held]
  rw [Files.copy, Function.update_apply] at copied
  split at copied
  next here => exact .inl ⟨here, copied⟩
  next away => exact .inr ⟨away, copied⟩

theorem Did.origin {executed : Executed} {entries : Ledger} (from' : HasFile d source)
    (did : Did d source destination decision (.ok executed) entries after) (agreed : decision ≠ .conflict)
    (place : Location) (content : ByteArray) (held : after.contents place = some content) :
    (d.contents place = some content ∧
        (Project.lands decision = true -> place ≠ destination.place d.home)) ∨
      (Project.lands decision = true ∧ place = destination.place d.home ∧
        d.contents (source.place d.home) = some content) ∨
      ∃ kept ∈ executed.entry.backup, kept.place d.home = place := by
  -- Contents are moved, copied to the backup or removed, and a conflict is the only way to put them anywhere else.
  cases did with
  | moved _ made _ brought =>
    have origin := brought.origin place content held
    rw [made.held, made.later.home] at origin
    rcases origin with ⟨here, own⟩ | ⟨away, own⟩
    · exact .inr (.inl ⟨rfl, here, own⟩)
    · exact .inl ⟨own, fun _ => away⟩
  | @updated mid _ _ kept _ entry fresh _ copied brought =>
    have origin := brought.origin place content held
    rw [copied.held, copied.later.home, Files.copy, Function.update_of_ne (Ne.symm (from'.apart fresh)),
      Function.update_apply] at origin
    rcases origin with ⟨here, own⟩ | ⟨away, own⟩
    · exact .inr (.inl ⟨rfl, here, own⟩)
    · split at own
      next beside => exact .inr (.inr ⟨kept, by rw [entry]; rfl, beside.symm⟩)
      · exact .inl ⟨own, fun _ => away⟩
  | dropped drops _ removed =>
    rw [removed.held, Files.drop, Function.update_apply] at held
    split at held
    · cases held
    · refine .inl ⟨held, fun lands => ?_⟩
      rcases drops with rfl | rfl <;> cases lands
  | aside => exact absurd rfl agreed

end

end Stowage.Carrier

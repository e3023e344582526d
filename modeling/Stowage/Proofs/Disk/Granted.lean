import Stowage.Disk.Change

set_option autoImplicit false

namespace Stowage.Disk

variable {d after : Disk} {p origin target : Path}

theorem store_eq_ok {content : ByteArray} {fresh : Nat} {mode : Option Nat}
    (stored : d.store p content fresh mode = .ok after) :
    (∃ place held old modified, d.spot .target p = .ok (.taken place (.file held old modified)) ∧
      d.allows writeBit old = true ∧ after = d.put place (.file content (mode.getD old) d.now)) ∨
    ∃ place, d.spot .target p = .ok (.free place) ∧ d.mayChange place.folder = true ∧
      after = (d.put place (.file content fresh d.now)).touch place.folder := by
  unfold store at stored
  split at stored
  · cases stored
  · cases stored
  · cases stored
  next place held old modified reached =>
    split at stored
    next allowed =>
      cases stored
      exact .inl ⟨place, held, old, modified, reached, allowed, rfl⟩
    · cases stored
  next place reached =>
    split at stored
    next allowed =>
      cases stored
      exact .inr ⟨place, reached, allowed, rfl⟩
    · cases stored

theorem find_of_read (d : Disk) (p : Path) (content : ByteArray) (held : d.read p = .ok content) :
    ∃ place mode modified, d.find p = .ok (place, .file content mode modified) := by
  unfold read at held
  split at held
  · cases held
  · split at held <;> cases held
  next place _ mode modified found =>
    split at held
    · cases held
      exact ⟨place, mode, modified, found⟩
    · cases held
  · cases held

theorem source_eq_ok {place : Location} {content : ByteArray} {mode : Nat}
    (held : d.source p = .ok (place, content, mode)) :
    ∃ modified, d.find p = .ok (place, .file content mode modified) ∧ d.allows readBit mode = true := by
  unfold source at held
  split at held
  · cases held
  next there _ _ modified found =>
    split at held
    next allowed =>
      cases held
      exact ⟨modified, found, allowed⟩
    · cases held
  · split at held <;> cases held
  · cases held

theorem copy_eq_ok (copied : d.copy origin target = .ok after) :
    ∃ place content mode, d.source origin = .ok (place, content, mode) ∧
      d.store target (if d.leadsTo target place then ByteArray.empty else content) mode (some mode) = .ok after := by
  unfold copy at copied
  split at copied
  · cases copied
  next place content mode held => exact ⟨place, content, mode, held, copied⟩

theorem removeFile_eq_ok (removed : d.removeFile p = .ok after) :
    ∃ place node, d.entry p = .ok (.taken place node) ∧ p.endsInSeparator = false ∧ endsInName p = true ∧
      d.mayChange place.folder = true ∧ node.isFolder = false ∧ after = (d.erase place).touch place.folder := by
  unfold removeFile at removed
  split at removed
  · cases removed
  · cases removed
  next place node reached =>
    split at removed
    · cases removed
    next named =>
      split at removed
      · cases removed
      next allowed =>
        split at removed
        · cases removed
        next solid =>
          cases removed
          simp only [Bool.or_eq_true, Bool.not_eq_true', not_or, Bool.not_eq_true, Bool.not_eq_false] at named allowed
          exact ⟨place, node, reached, named.1, named.2, allowed, by simpa using solid, rfl⟩

theorem makeFolder_eq_ok (made : d.makeFolder p = .ok after) :
    ∃ place, d.entry p = .ok (.free place) ∧ d.mayChange place.folder = true ∧
      after = (d.put place (.folder newFolderMode d.now)).touch place.folder := by
  unfold makeFolder at made
  split at made
  · cases made
  · cases made
  next place reached =>
    split at made
    next allowed =>
      cases made
      exact ⟨place, reached, allowed, rfl⟩
    · cases made

theorem setMode_eq_ok {mode : Nat} (changed : d.setMode p mode = .ok after) :
    (∃ place content old modified, d.find p = .ok (place, .file content old modified) ∧
      after = d.put place (.file content mode modified)) ∨
    ∃ place old modified, d.find p = .ok (place, .folder old modified) ∧
      after = d.put place (.folder mode modified) := by
  unfold setMode at changed
  split at changed
  · cases changed
  next place content old modified found =>
    cases changed
    exact .inl ⟨place, content, old, modified, found, rfl⟩
  next place old modified found =>
    cases changed
    exact .inr ⟨place, old, modified, found, rfl⟩
  · cases changed

theorem renaming?_ends (d : Disk) (origin target : Path) (r : Renaming)
    (ends : d.renaming? origin target = some r) :
    d.entry origin = .ok (.taken r.old r.node) ∧
      ((∃ other, d.entry target = .ok (.taken r.new other) ∧ r.inTheWay = some other) ∨
        d.entry target = .ok (.free r.new)) := by
  unfold renaming? at ends
  split at ends
  · cases ends
  · split at ends
    next old taken new other reached reached' =>
      cases ends
      exact ⟨reached, .inl ⟨other, reached', rfl⟩⟩
    next old taken new reached reached' =>
      cases ends
      exact ⟨reached, .inr reached'⟩
    · cases ends

theorem rename?_eq_some (renamed : d.rename? origin target = some after) :
    ∃ r, d.renaming? origin target = some r ∧
      (r.node.isFolder = false -> origin.endsInSeparator = false ∧ target.endsInSeparator = false) ∧
      (r.old = r.new ∧ after = d ∨ r.old ≠ r.new ∧ d.mayRename r = true ∧
        after = ((d.carry r.old r.new).touch r.old.folder).touch r.new.folder) := by
  unfold rename? at renamed
  split at renamed
  · cases renamed
  next r ends =>
    split at renamed
    · cases renamed
    next whole =>
      have level : r.node.isFolder = false -> origin.endsInSeparator = false ∧ target.endsInSeparator = false := by
        intro solid
        simpa [solid] using whole
      split at renamed
      next same =>
        cases renamed
        exact ⟨r, ends, level, .inl ⟨same, rfl⟩⟩
      next differs =>
        split at renamed
        next allowed =>
          cases renamed
          exact ⟨r, ends, level, .inr ⟨differs, allowed, rfl⟩⟩
        · cases renamed

end Stowage.Disk

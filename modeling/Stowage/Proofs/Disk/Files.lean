import Mathlib.Logic.Function.Basic
import Stowage.Disk.Basic

set_option autoImplicit false

namespace Stowage

abbrev Files := Location -> Option ByteArray

namespace Files

def drop (files : Files) (place : Location) : Files := Function.update files place none

def copy (files : Files) (origin target : Location) : Files :=
  Function.update files target (files origin)

def carry (files : Files) (origin target : Location) : Files := (files.copy origin target).drop origin

def Holds (files : Files) (content : ByteArray) : Prop := ∃ place, files place = some content

def Safe (files : Files) (place other : Location) : Prop :=
  ∀ content, files place = some content ->
    ∃ beside, beside ≠ place ∧ beside ≠ other ∧ files beside = some content

theorem Safe.self {files : Files} {place other : Location} (safe : files.Safe place other) :
    files.Safe place place := by
  intro content held
  obtain ⟨beside, apart, -, own⟩ := safe content held
  exact ⟨beside, apart, apart, own⟩

theorem safe_of_none {files : Files} {place : Location} (other : Location) (open' : files place = none) :
    files.Safe place other := by
  intro content held
  rw [open'] at held
  cases held

theorem Holds.copy {files : Files} {origin target : Location} {content : ByteArray}
    (held : files.Holds content) (safe : files.Safe target target) :
    (files.copy origin target).Holds content := by
  obtain ⟨place, own⟩ := held
  by_cases same : place = target
  · subst same
    obtain ⟨beside, other, -, own'⟩ := safe content own
    exact ⟨beside, by rw [Files.copy, Function.update_of_ne other, own']⟩
  · exact ⟨place, by rw [Files.copy, Function.update_of_ne same, own]⟩

theorem Holds.drop {files : Files} {place : Location} {content : ByteArray}
    (held : files.Holds content) (safe : files.Safe place place) :
    (files.drop place).Holds content := by
  obtain ⟨there, own⟩ := held
  by_cases same : there = place
  · subst same
    obtain ⟨beside, other, -, own'⟩ := safe content own
    exact ⟨beside, by rw [Files.drop, Function.update_of_ne other, own']⟩
  · exact ⟨there, by rw [Files.drop, Function.update_of_ne same, own]⟩

theorem Holds.carry {files : Files} {origin target : Location} {content : ByteArray}
    (held : files.Holds content) (apart : target ≠ origin) (safe : files.Safe target origin) :
    (files.carry origin target).Holds content := by
  obtain ⟨place, own⟩ := held
  by_cases carried : place = origin
  · subst carried
    refine ⟨target, ?_⟩
    rw [Files.carry, Files.drop, Function.update_of_ne apart, Files.copy, Function.update_self, own]
  have stays : ∀ {there : Location}, there ≠ origin -> there ≠ target ->
      (files.carry origin target) there = files there := by
    intro there left other
    rw [Files.carry, Files.drop, Function.update_of_ne left, Files.copy, Function.update_of_ne other]
  by_cases same : place = target
  · subst same
    obtain ⟨beside, other, left, own'⟩ := safe content own
    exact ⟨beside, by rw [stays left other, own']⟩
  · exact ⟨place, by rw [stays carried same, own]⟩

theorem holds_of_copy {files : Files} {origin target : Location} {content : ByteArray}
    (held : (files.copy origin target).Holds content) : files.Holds content := by
  obtain ⟨place, own⟩ := held
  rw [Files.copy, Function.update_apply] at own
  split at own
  · exact ⟨origin, own⟩
  · exact ⟨place, own⟩

theorem holds_of_drop {files : Files} {place : Location} {content : ByteArray}
    (held : (files.drop place).Holds content) : files.Holds content := by
  obtain ⟨there, own⟩ := held
  rw [Files.drop, Function.update_apply] at own
  split at own
  · cases own
  · exact ⟨there, own⟩

theorem holds_of_carry {files : Files} {origin target : Location} {content : ByteArray}
    (held : (files.carry origin target).Holds content) : files.Holds content :=
  holds_of_copy (holds_of_drop held)

end Files

end Stowage

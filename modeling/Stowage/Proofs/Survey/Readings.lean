import Stowage.Relocation.Decision

set_option autoImplicit false

namespace Stowage

theorem readRecord_ok (d : Disk) (path : Path) (standing : Standing) (reading : Reading)
    (read : readRecord d path standing = .ok reading) :
    ∃ stat content, d.stat path = .ok stat ∧ d.read path = .ok content ∧
      reading = ⟨⟨path, path.extension, Sha256.hex content, stat.modified, stat.size, standing,
        .ofContent content path.extension⟩, Classification.decodeText content⟩ := by
  unfold readRecord at read
  split at read
  · cases read
  next stat asked =>
    split at read
    · cases read
    next content held =>
      cases read
      exact ⟨stat, content, asked, held, rfl⟩

/-- A record of what is at its path. -/
def FileRecord.Tells (record : FileRecord) (d : Disk) : Prop :=
  ∃ text, readRecord d record.path record.standing = .ok ⟨record, text⟩

theorem readRecord_tells (d : Disk) (path : Path) (standing : Standing) (reading : Reading)
    (read : readRecord d path standing = .ok reading) :
    reading.record.Tells d ∧ reading.record.path = path ∧ reading.record.standing = standing := by
  obtain ⟨stat, content, -, -, rfl⟩ := readRecord_ok d path standing reading read
  exact ⟨⟨_, read⟩, rfl, rfl⟩

namespace Decision

theorem of_cases (d : Disk) (record : FileRecord) (destination : Path) (decision : Decision)
    (decided : of d record destination = .ok decision) :
    (decision = .move ∧ d.stat destination = .error .notFound) ∨
      (decision = .identical ∧
        ∃ content, d.read destination = .ok content ∧ Sha256.hex content = record.digest) ∨
      ∃ stat, d.stat destination = .ok stat ∧ decision = ofTimes record.modified stat.modified := by
  unfold of at decided
  split at decided
  next missing =>
    cases decided
    exact .inl ⟨rfl, missing⟩
  · cases decided
  next stat asked =>
    split at decided
    · cases decided
    next same =>
      cases decided
      unfold sameContent at same
      split at same
      · cases same
      · cases read : d.read destination with
        | error problem => simp [read, Except.map] at same
        | ok content => exact .inr (.inl ⟨rfl, content, rfl, by simpa [read, Except.map] using same⟩)
    · cases decided
      exact .inr (.inr ⟨stat, asked, rfl⟩)

theorem ofTimes_cases (source destination : Instant) :
    (ofTimes source destination = .updateNewer ∧ source.order destination = .gt) ∨
      (ofTimes source destination = .skipOlder ∧ source.order destination = .lt) ∨
      (ofTimes source destination = .conflict ∧ source.order destination = .eq) := by
  unfold ofTimes
  cases source.order destination <;> simp

theorem stat_of_move (d : Disk) (record : FileRecord) (destination : Path)
    (decided : of d record destination = .ok .move) : d.stat destination = .error .notFound := by
  rcases of_cases d record destination _ decided with ⟨-, missing⟩ | ⟨impossible, -⟩ | ⟨stat, -, times⟩
  · exact missing
  · cases impossible
  · rcases ofTimes_cases record.modified stat.modified with ⟨known, -⟩ | ⟨known, -⟩ | ⟨known, -⟩ <;>
      cases times.trans known

theorem read_of_identical (d : Disk) (record : FileRecord) (destination : Path)
    (decided : of d record destination = .ok .identical) :
    ∃ content, d.read destination = .ok content ∧ Sha256.hex content = record.digest := by
  rcases of_cases d record destination _ decided with ⟨impossible, -⟩ | ⟨-, read⟩ | ⟨stat, -, times⟩
  · cases impossible
  · exact read
  · rcases ofTimes_cases record.modified stat.modified with ⟨known, -⟩ | ⟨known, -⟩ | ⟨known, -⟩ <;>
      cases times.trans known

theorem stat_of_skipOlder (d : Disk) (record : FileRecord) (destination : Path)
    (decided : of d record destination = .ok .skipOlder) :
    ∃ stat, d.stat destination = .ok stat ∧ record.modified.order stat.modified = .lt := by
  rcases of_cases d record destination _ decided with ⟨impossible, -⟩ | ⟨impossible, -⟩ | ⟨stat, asked, times⟩
  · cases impossible
  · cases impossible
  · refine ⟨stat, asked, ?_⟩
    rcases ofTimes_cases record.modified stat.modified with ⟨known, -⟩ | ⟨-, less⟩ | ⟨known, -⟩
    · cases times.trans known
    · exact less
    · cases times.trans known

end Decision

end Stowage

import Stowage.Proofs.Disk.Granted
import Stowage.Proofs.Disk.Touching
import Stowage.Proofs.Survey.Readings
import Stowage.Relocation.Carrier

set_option autoImplicit false

namespace Stowage

namespace Disk

theorem find_of_entry (d : Disk) (p : Path) (place : Location) (node : Node)
    (ended : p.endsInSeparator = false) (real : ∀ target, node ≠ .link target)
    (named : d.entry p = .ok (.taken place node)) : d.find p = .ok (place, node) := by
  obtain ⟨accepted, leads⟩ := (entry_eq_ok_iff d p _).1 named
  rw [Path.withoutEnd_eq p ended] at leads
  rw [find_leads_iff, refusal?_eq p .object .entry (by simp) (by simp)]
  exact ⟨accepted, leads.object (by simp) fun place' target equal => by
    cases equal
    exact real target rfl⟩

theorem removeFile_of_regular (d removed : Disk) (p : Path) (place : Location) (content : ByteArray)
    (mode : Nat) (modified : Instant)
    (named : d.entry p = .ok (.taken place (.file content mode modified)))
    (gone : d.removeFile p = .ok removed) :
    p.endsInSeparator = false ∧ removed = (d.erase place).touch place.folder := by
  obtain ⟨there, node, reached, ended, -, -, -, rfl⟩ := removeFile_eq_ok gone
  rw [named] at reached
  cases reached
  exact ⟨ended, rfl⟩

variable (d : Disk) (place : Location)

theorem alike_removed (other : Location) (node : Node) (differs : other ≠ place)
    (found : d.node? other = some node) :
    ∃ same, ((d.erase place).touch place.folder).node? other = some same ∧ node.Alike same :=
  alike_touch _ _ _ _ ((node?_erase_other d place other differs).trans found)

theorem alike_of_removed (other : Location) (node : Node)
    (found : ((d.erase place).touch place.folder).node? other = some node) :
    other ≠ place ∧ ∃ same, d.node? other = some same ∧ node.Alike same := by
  obtain ⟨same, held, alike⟩ := alike_of_touch _ _ _ _ found
  have differs : other ≠ place := by
    rintro rfl
    rw [node?_erase_self] at held
    cases held
  rw [node?_erase_other d place other differs] at held
  exact ⟨differs, same, held, alike⟩

theorem find_removed_iff (content held : ByteArray) (mode mode' : Nat) (modified time : Instant)
    (regular : d.node? place = some (.file content mode modified)) (p : Path) (other : Location) :
    ((d.erase place).touch place.folder).find p = .ok (other, .file held mode' time) ↔
      other ≠ place ∧ d.find p = .ok (other, .file held mode' time) := by
  have privileged : ((d.erase place).touch place.folder).privileged = d.privileged := touch_privileged _ _
  have home : ((d.erase place).touch place.folder).home = d.home := touch_home _ _
  simp only [find_leads_iff, home]
  constructor
  · rintro ⟨accepted, leads⟩
    obtain ⟨same, alike, before⟩ := leads.alike privileged.symm
      fun place' node found _ => (alike_of_removed d place place' node found).2
    cases alike.file
    exact ⟨(alike_of_removed d place other _ leads.found).1, accepted, before⟩
  · rintro ⟨differs, accepted, leads⟩
    refine ⟨accepted, ?_⟩
    obtain ⟨same, alike, after⟩ := leads.alike privileged (by
      intro place' node found kept
      refine alike_removed d place place' node ?_ found
      rintro rfl
      cases regular.symm.trans found
      rcases kept with impossible | same
      · cases impossible
      · exact differs same.symm)
    cases alike.file
    exact after

end Disk

namespace Decision

/-- A destination holds what a source was dropped for: its very bytes, or a file that is newer. -/
def Replaces (decision : Decision) (d : Disk) (destination : Path) (content : ByteArray)
    (modified : Instant) : Prop :=
  ∃ place held mode time, d.find destination = .ok (place, .file held mode time) ∧
    (decision = .identical -> held = content) ∧
    (decision = .skipOlder -> modified.order time = .lt)

end Decision

theorem Decision.of_alias (d : Disk) (source destination : Path) (standing : Standing)
    (reading : Reading) (recorded : readRecord d source standing = .ok reading)
    (aliased : d.find destination = d.find source) :
    Decision.of d reading.record destination = .ok .identical := by
  have asked : d.stat destination = d.stat source := by simp only [Disk.stat, aliased]
  have seen : d.read destination = d.read source := by simp only [Disk.read, aliased]
  obtain ⟨stat, content, found, held, rfl⟩ := readRecord_ok d source standing reading recorded
  simp [Decision.of, Decision.sameContent, asked, seen, found, held, Except.map]

theorem Disk.asked_of_find (d : Disk) (p : Path) (place : Location) (content : ByteArray) (mode : Nat)
    (modified : Instant) (found : d.find p = .ok (place, .file content mode modified)) :
    d.stat p = .ok ⟨false, content.size, modified⟩ ∧ ∀ held, d.read p = .ok held -> held = content := by
  refine ⟨by simp [Disk.stat, found], fun held read => ?_⟩
  obtain ⟨_, _, _, held'⟩ := find_of_read d p held read
  cases found.symm.trans held'
  rfl

namespace Carrier

theorem executeDrop_disk (carrier : Carrier) (d : Disk) (ledger : Ledger) (decision : Decision)
    (source destination : Path) (executed : Executed) (after : Site)
    (drops : decision = .identical ∨ decision = .skipOlder)
    (carried : carrier.execute ⟨d, ledger⟩ decision source destination = (.ok executed, after)) :
    d.removeFile source = .ok after.disk := by
  unfold execute at carried
  split at carried
  · cases carried
  · rcases drops with rfl | rfl <;>
    · simp only [executeDrop] at carried
      split at carried
      · cases carried
      next removed gone =>
        simp only [finish, Prod.mk.injEq] at carried
        rw [gone, ← carried.2]
        rfl

/-- A source that was dropped is replaced at its destination exactly where the destination names a
regular file other than the source. -/
theorem dropped_source_replaced_iff (carrier : Carrier) (d : Disk) (ledger : Ledger)
    (source destination : Path) (standing : Standing) (reading : Reading) (decision : Decision)
    (executed : Executed) (after : Site) (place : Location) (content : ByteArray) (mode : Nat)
    (modified : Instant)
    (regular : d.entry source = .ok (.taken place (.file content mode modified)))
    (recorded : readRecord d source standing = .ok reading)
    (decided : Decision.of d reading.record destination = .ok decision)
    (drops : decision = .identical ∨ decision = .skipOlder)
    (carried : carrier.execute ⟨d, ledger⟩ decision source destination = (.ok executed, after))
    (faithful : ∀ held, d.read destination = .ok held ->
      Sha256.hex held = Sha256.hex content -> held = content) :
    decision.Replaces after.disk destination content modified ↔
      d.isFile destination = true ∧ d.leadsTo destination place = false := by
  have gone := executeDrop_disk carrier d ledger decision source destination executed after drops carried
  obtain ⟨ended, removed⟩ :=
    Disk.removeFile_of_regular d after.disk source place content mode modified regular gone
  have found := Disk.find_of_entry d source place _ ended (by simp) regular
  have held := Disk.find_node d source place _ found
  obtain ⟨stat, recorded', asked, read, rfl⟩ := readRecord_ok d source standing reading recorded
  obtain ⟨age, own⟩ := Disk.asked_of_find d source place content mode modified found
  obtain rfl := (own recorded' read).symm
  cases asked.symm.trans age
  rw [removed]
  -- Once the source is gone, the destination leads to a file where it led to another one before.
  constructor
  · rintro ⟨other, bytes, bits, time, led, -⟩
    obtain ⟨differs, before⟩ := (Disk.find_removed_iff d place content bytes mode bits modified time held
      destination other).1 led
    simp [Disk.isFile, Disk.leadsTo, before, Node.isFile, differs]
  · rintro ⟨isFile, elsewhere⟩
    unfold Disk.isFile at isFile
    unfold Disk.leadsTo at elsewhere
    split at isFile
    next other node before =>
      cases node with
      | folder => cases isFile
      | link => cases isFile
      | file bytes bits time =>
        have differs : other ≠ place := by simpa [before] using elsewhere
        obtain ⟨asked', own'⟩ := Disk.asked_of_find d destination other bytes bits time before
        refine ⟨other, bytes, bits, time, (Disk.find_removed_iff d place content bytes mode bits modified
          time held destination other).2 ⟨differs, before⟩, ?_, ?_⟩
        · rintro rfl
          obtain ⟨held', seen, equal⟩ := Decision.read_of_identical d _ destination decided
          obtain rfl := (own' held' seen).symm
          exact faithful bytes seen equal
        · rintro rfl
          obtain ⟨stat, known, newer⟩ := Decision.stat_of_skipOlder d _ destination decided
          cases asked'.symm.trans known
          exact newer
    · cases isFile

def stagedTwice : Disk :=
  ((((⟨.bare, [], true, ⟨5, 0⟩⟩ : Disk).put [] (.folder 0o755 ⟨1, 0⟩)).put ["src"]
    (.folder 0o755 ⟨1, 0⟩)).put ["downloads"] (.folder 0o755 ⟨1, 0⟩)).put ["downloads", "a.ts"]
    (.file "export {};".toUTF8 0o644 ⟨2, 0⟩) |>.put ["src", "a.ts"]
    (.file "export {};".toUTF8 0o644 ⟨3, 0⟩)

theorem stagedTwice_entry : stagedTwice.entry ⟨"/downloads/a.ts"⟩ =
    .ok (.taken ["downloads", "a.ts"] (.file "export {};".toUTF8 0o644 ⟨2, 0⟩)) :=
  Except.eq_ok_of_toOption (by decide +kernel)

theorem dropped_copy_replaced : ∃ (executed : Executed) (after : Site),
    Carrier.execute ⟨"s", []⟩ ⟨stagedTwice, []⟩ .identical ⟨"/downloads/a.ts"⟩ ⟨"/src/a.ts"⟩ =
      (.ok executed, after) ∧
    (Decision.identical.Replaces after.disk ⟨"/src/a.ts"⟩ "export {};".toUTF8 ⟨2, 0⟩ ↔
      stagedTwice.isFile ⟨"/src/a.ts"⟩ = true ∧
        stagedTwice.leadsTo ⟨"/src/a.ts"⟩ ["downloads", "a.ts"] = false) := by
  have decision : ((readRecord stagedTwice ⟨"/downloads/a.ts"⟩ .staged).toOption.bind fun reading =>
      (Decision.of stagedTwice reading.record ⟨"/src/a.ts"⟩).toOption) = some .identical := by
    decide +kernel
  obtain ⟨reading, recorded, decided⟩ := Option.bind_eq_some_iff.1 decision
  have carried : (Carrier.execute ⟨"s", []⟩ ⟨stagedTwice, []⟩ .identical ⟨"/downloads/a.ts"⟩
      ⟨"/src/a.ts"⟩).1.toOption.isSome = true := by decide +kernel
  obtain ⟨executed, done⟩ := Option.isSome_iff_exists.1 carried
  have held : (stagedTwice.read ⟨"/src/a.ts"⟩).toOption = some "export {};".toUTF8 := by decide +kernel
  refine ⟨executed, _, Prod.ext (Except.eq_ok_of_toOption done) rfl, ?_⟩
  refine dropped_source_replaced_iff _ _ _ _ _ .staged reading _ executed _ _ _ 0o644 _
    stagedTwice_entry (Except.eq_ok_of_toOption recorded)
    (Except.eq_ok_of_toOption decided) (.inl rfl) (Prod.ext (Except.eq_ok_of_toOption done) rfl) ?_
  intro bytes seen _
  cases seen.symm.trans (Except.eq_ok_of_toOption held)
  rfl

theorem not_dropped_source_always_replaced :
    ¬ ∀ (carrier : Carrier) (d : Disk) (ledger : Ledger) (source destination : Path)
      (standing : Standing) (reading : Reading) (decision : Decision) (executed : Executed)
      (after : Site) (place : Location) (content : ByteArray) (mode : Nat) (modified : Instant),
      source.same destination = false ->
      d.entry source = .ok (.taken place (.file content mode modified)) ->
      readRecord d source standing = .ok reading ->
      Decision.of d reading.record destination = .ok decision ->
      (decision = .identical ∨ decision = .skipOlder) ->
      carrier.execute ⟨d, ledger⟩ decision source destination = (.ok executed, after) ->
      (∀ held, d.read destination = .ok held -> Sha256.hex held = Sha256.hex content ->
        held = content) ->
      decision.Replaces after.disk destination content modified := by
  intro replaced
  have recorded : (readRecord stagedTwice ⟨"/downloads/a.ts"⟩ .staged).toOption.isSome = true := by
    decide +kernel
  obtain ⟨reading, known⟩ := Option.isSome_iff_exists.1 recorded
  have carried : (Carrier.execute ⟨"s", []⟩ ⟨stagedTwice, []⟩ .identical ⟨"/downloads/a.ts"⟩
      ⟨"/src/../downloads/a.ts"⟩).1.toOption.isSome = true := by decide +kernel
  obtain ⟨executed, done⟩ := Option.isSome_iff_exists.1 carried
  have here : (stagedTwice.find ⟨"/downloads/a.ts"⟩).toOption =
      some (["downloads", "a.ts"], .file "export {};".toUTF8 0o644 ⟨2, 0⟩) := by decide +kernel
  have there : (stagedTwice.find ⟨"/src/../downloads/a.ts"⟩).toOption =
      some (["downloads", "a.ts"], .file "export {};".toUTF8 0o644 ⟨2, 0⟩) := by decide +kernel
  have held : (stagedTwice.read ⟨"/src/../downloads/a.ts"⟩).toOption = some "export {};".toUTF8 := by
    decide +kernel
  have lost : ((Carrier.execute ⟨"s", []⟩ ⟨stagedTwice, []⟩ .identical ⟨"/downloads/a.ts"⟩
      ⟨"/src/../downloads/a.ts"⟩).2.disk.find ⟨"/src/../downloads/a.ts"⟩).toOption = none := by
    decide +kernel
  obtain ⟨other, bytes, mode, time, found, -⟩ := replaced ⟨"s", []⟩ stagedTwice [] ⟨"/downloads/a.ts"⟩
    ⟨"/src/../downloads/a.ts"⟩ .staged reading .identical executed _ _ _ _ _ (by decide +kernel)
    stagedTwice_entry (Except.eq_ok_of_toOption known)
    (Decision.of_alias _ _ _ _ _ (Except.eq_ok_of_toOption known)
      ((Except.eq_ok_of_toOption there).trans (Except.eq_ok_of_toOption here).symm))
    (.inl rfl) (Prod.ext (Except.eq_ok_of_toOption done) rfl) (by
      intro bytes seen _
      cases seen.symm.trans (Except.eq_ok_of_toOption held)
      rfl)
  rw [found] at lost
  cases lost

end Carrier

end Stowage

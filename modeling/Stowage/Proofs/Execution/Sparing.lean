import Stowage.Proofs.Execution.Editing
import Stowage.Proofs.Survey.Unreadable

set_option autoImplicit false

namespace Stowage

namespace Disk

def TextAt (d : Disk) (place : Location) : Prop :=
  ∃ (text : String) (mode : Nat) (modified : Instant), d.node? place = some (.file text.toUTF8 mode modified)

/-- Two disks that differ only in files that are text on both. -/
structure Reworded (d after : Disk) : Prop where
  home : after.home = d.home
  privileged : after.privileged = d.privileged
  nodes : ∀ place, after.node? place = d.node? place ∨ d.TextAt place ∧ after.TextAt place

theorem Reworded.refl (d : Disk) : d.Reworded d := ⟨rfl, rfl, fun _ => .inl rfl⟩

theorem Reworded.trans {first second third : Disk} (one : first.Reworded second) (other : second.Reworded third) :
    first.Reworded third := by
  refine ⟨other.home.trans one.home, other.privileged.trans one.privileged, fun place => ?_⟩
  rcases one.nodes place with same | ⟨text, text'⟩ <;> rcases other.nodes place with same' | ⟨text'', text'''⟩
  · exact .inl (same'.trans same)
  · refine .inr ⟨?_, text'''⟩
    unfold TextAt at text'' ⊢
    rwa [same] at text''
  · refine .inr ⟨text, ?_⟩
    unfold TextAt at text' ⊢
    rwa [same']
  · exact .inr ⟨text, text'''⟩

theorem Reworded.find {d after : Disk} (reworded : d.Reworded after) {p : Path} {place : Location} {node : Node}
    (found : d.find p = .ok (place, node)) (notText : ¬ d.TextAt place) : after.find p = .ok (place, node) := by
  obtain ⟨accepted, leads⟩ := (find_leads_iff d p place node).1 found
  have kept : ∀ there other, d.node? there = some other -> other.isFile = false ∨ there = place ->
      ∃ same, after.node? there = some same ∧ other.Alike same := by
    intro there other held passed
    rcases reworded.nodes there with same | ⟨text, -⟩
    · exact ⟨other, same.trans held, .refl other⟩
    · rcases passed with solid | rfl
      · -- The way leads through no file.
        obtain ⟨text, mode, modified, file⟩ := text
        cases held.symm.trans file
        cases solid
      · exact absurd text notText
  obtain ⟨same, -, onward⟩ := leads.alike reworded.privileged kept
  have held := (reworded.nodes place).resolve_right fun texts => notText texts.1
  rw [leads.found, onward.found] at held
  cases held
  rw [← reworded.home] at onward
  exact (find_leads_iff after p place node).2 ⟨accepted, onward⟩

theorem reworded_of_write {d after : Disk} {p : Path} {text text' : String} (read : d.readText p = .ok text)
    (written : d.write p text'.toUTF8 = .ok after) : d.Reworded after := by
  obtain ⟨place, mode, modified, found⟩ := find_of_read d p _ (readText_eq_ok read)
  obtain ⟨-, leads⟩ := (find_leads_iff d p place _).1 found
  -- Reading and writing walk the same way, so that the file written is the one that was read as text.
  have same : ∀ spot, d.spot .target p = .ok spot -> (∀ place target, spot ≠ .taken place (.link target)) ->
      spot = .taken place (.file text.toUTF8 mode modified) := by
    intro spot reached real
    exact (((spot_eq_ok_iff d .target p spot).1 reached).2.object (by simp) real).unique leads
  rcases store_eq_ok written with ⟨there, _, _, _, reached, -, rfl⟩ | ⟨there, reached, -⟩
  · cases same _ reached (by simp)
    refine ⟨rfl, rfl, fun other => ?_⟩
    by_cases here : other = place
    · subst here
      exact .inr ⟨⟨text, _, _, find_node d p other _ found⟩, ⟨text', _, _, node?_put_self d other _⟩⟩
    · exact .inl (node?_put_other d place other _ here)
  · cases same _ reached (by simp)

end Disk

namespace Project

theorem rewriteFile_rewords (progress : Progress) (step : Path × List Edit) :
    progress.site.disk.Reworded (rewriteFile progress step).site.disk ∧
      ∀ path ∈ (rewriteFile progress step).execution.rewritten, path ∈ progress.execution.rewritten ∨
        ∃ text, progress.site.disk.readText path = .ok text := by
  unfold rewriteFile
  cases applied : applyEdits progress.site.disk step.1 step.2 with
  | error error => exact ⟨.refl _, fun path listed => .inl listed⟩
  | ok result =>
    obtain ⟨changed, disk⟩ := result
    obtain ⟨text, read, ⟨rfl, -, rfl⟩ | ⟨rfl, -, stored⟩⟩ := applyEdits_eq_ok applied
    · exact ⟨.refl _, fun path listed => .inl listed⟩
    · refine ⟨Disk.reworded_of_write read stored, fun path listed => ?_⟩
      rcases List.mem_append.1 listed with old | new
      · exact .inl old
      · cases List.mem_singleton.1 new
        exact .inr ⟨text, read⟩

theorem rewriteAll_rewords (steps : List (Path × List Edit)) (progress : Progress) :
    progress.site.disk.Reworded (steps.foldl rewriteFile progress).site.disk ∧
      ∀ path ∈ (steps.foldl rewriteFile progress).execution.rewritten, path ∈ progress.execution.rewritten ∨
        ∃ d text, progress.site.disk.Reworded d ∧ d.readText path = .ok text := by
  induction steps generalizing progress with
  | nil => exact ⟨.refl _, fun path listed => .inl listed⟩
  | cons step rest ih =>
    obtain ⟨first, listed⟩ := rewriteFile_rewords progress step
    obtain ⟨later, listed'⟩ := ih (rewriteFile progress step)
    refine ⟨first.trans later, fun path inside => ?_⟩
    rcases listed' path inside with new | ⟨d, text, reworded, read⟩
    · exact (listed path new).imp_right fun ⟨text, read⟩ => ⟨_, text, .refl _, read⟩
    · exact .inr ⟨d, text, first.trans reworded, read⟩

theorem executePlan_rewritten (project : Project) (carrier : Carrier) (survey : Survey) (progress : Progress)
    (plan : Plan) : (project.executePlan carrier survey progress plan).execution.rewritten =
      progress.execution.rewritten := by
  have settled : ∀ (progress : Progress) (decision : Decision) (outcome : Except RelocationError Executed × Site),
      (settle progress plan decision outcome).execution.rewritten = progress.execution.rewritten := by
    intro progress decision outcome
    unfold settle
    simp only
    split
    · rfl
    · split <;> rfl
  unfold executePlan
  split
  · rfl
  · unfold carryOut
    split
    · rfl
    · rw [settled]
      split <;> rfl
  · rfl
  · rfl

theorem makeRequired_rewritten (project : Project) (progress : Progress) (dir : Path) :
    (project.makeRequired progress dir).execution.rewritten = progress.execution.rewritten := by
  unfold makeRequired
  split <;> rfl

theorem relocated_rewritten (project : Project) (carrier : Carrier) (survey : Survey) (site : Site) :
    (project.relocateAll carrier survey site).execution.rewritten = [] := by
  have carried := foldl_kept (fun progress => progress.execution.rewritten)
    (project.executePlan_rewritten carrier survey) survey.plans (project.ready site)
  have prepared := foldl_kept (fun progress => progress.execution.rewritten) project.makeRequired_rewritten
    project.layout.requiredDirs (.start site)
  exact carried.trans prepared

/-- Wherever a file of this content is after the relocations of a run, it stays as it is, and is not among those that
are rewritten. -/
def NeverRewritten (content : ByteArray) : Prop :=
  ∀ (project : Project) (carrier : Carrier) (survey : Survey) (site : Site) (path : Path) (place : Location) (mode : Nat)
    (modified : Instant),
    (project.relocateAll carrier survey site).site.disk.find path = .ok (place, .file content mode modified) ->
      (project.execute carrier survey site).2.disk.find path = .ok (place, .file content mode modified) ∧
        path ∉ (project.execute carrier survey site).1.rewritten

theorem neverRewritten_of_notText {content : ByteArray} (notText : Classification.decodeText content = none) :
    NeverRewritten content := by
  intro project carrier survey site path place mode modified found
  rw [execute_site, execute_execution, rewritten]
  have empty := relocated_rewritten project carrier survey site
  generalize project.relocateAll carrier survey site = relocated at found empty
  have apart : ¬ relocated.site.disk.TextAt place := by
    rintro ⟨text, mode', modified', held⟩
    cases (Disk.find_node _ path place _ found).symm.trans held
    rw [Classification.decodeText_toUTF8] at notText
    cases notText
  obtain ⟨reworded, listed⟩ := rewriteAll_rewords (project.editsAfter survey relocated) relocated
  refine ⟨reworded.find found apart, fun inside => ?_⟩
  rcases listed path inside with old | ⟨d, text, reworded', read⟩
  · rw [empty] at old
    cases old
  · -- The file was there when it is said to have been read as text.
    obtain ⟨_, _, _, held⟩ := Disk.find_of_read d path _ (Disk.readText_eq_ok read)
    cases (reworded'.find found apart).symm.trans held
    rw [Classification.decodeText_toUTF8] at notText
    cases notText

section

variable {project : Project} {d : Disk}

/-- A recorded source is judged to be unreadable exactly if it is reported, unless it is text with a zero byte. It is
reported where it is not text; then it is no source of imports, and no run ever rewrites it. -/
theorem unreadable_reported_iff (sound : d.Sound) {record : FileRecord} (recorded : record ∈ (project.survey d).records)
    (isSource : project.layout.isSource record.extension = true) :
    ∃ content, d.read record.path = .ok content ∧
      ((record.classification = .unreadable record.extension ↔ (project.inventory d).Reports record.path) ↔
        ¬ (0 ∈ content.data ∧ Classification.decodeText content ≠ none)) ∧
      ((project.inventory d).Reports record.path ↔ Classification.decodeText content = none) ∧
      (∀ text, Classification.decodeText content = some text -> (record.path, text) ∈ (project.inventory d).sources) ∧
      ((project.inventory d).Reports record.path ->
        (∀ source ∈ (project.inventory d).sources, source.1.same record.path = false) ∧
          (∀ edge ∈ (project.survey d).edges, edge.file.same record.path = false) ∧ NeverRewritten content) := by
  obtain ⟨⟨text, read⟩, candidate⟩ := project.told_of_record d record recorded
  obtain ⟨stat, content, -, held, made⟩ := readRecord_ok d _ _ _ read
  obtain ⟨own, verdict⟩ : record.extension = record.path.extension ∧
      record.classification = .ofContent content record.path.extension := by
    have same := congrArg Reading.record made
    exact ⟨congrArg FileRecord.extension same, congrArg FileRecord.classification same⟩
  rw [own] at isSource ⊢
  have reported := reports_iff sound candidate held isSource
  refine ⟨content, held, ?_, reported, fun text decoded => ?_, fun told => ?_⟩
  · rw [verdict, Classification.ofContent_eq_unreadable_iff, reported]
    -- A file with a zero byte is unreadable to the classifier, whether it is text or not.
    by_cases text : Classification.decodeText content = none <;> simp [text]
  · exact (project.mem_sources_iff d record.path text).2 ⟨_, content, candidate, held, isSource, decoded⟩
  · have notText := reported.1 told
    have apart : ∀ source ∈ (project.inventory d).sources, source.1.same record.path = false :=
      not_same_of_notText held notText
    refine ⟨apart, fun edge member => ?_, neverRewritten_of_notText notText⟩
    obtain ⟨source, inside, found, made⟩ := project.edge_made d edge member
    rw [Anchors.edge?_file _ _ _ _ _ made]
    exact apart source inside

end

def single (content : ByteArray) : Disk where
  tree := .row "" (some (.folder Disk.newFolderMode ⟨1, 0⟩)) (.row "project"
    (some (.folder Disk.newFolderMode ⟨1, 0⟩)) (.row "src" (some (.folder Disk.newFolderMode ⟨1, 0⟩))
      (.row "a.ts" (some (.file content Disk.newFileMode ⟨1, 0⟩)) .bare .bare) .bare) .bare) .bare
  home := ["project"]
  privileged := true
  now := ⟨2, 0⟩

def plainly : Project := ⟨⟨"/project"⟩, .usual, .usual⟩

theorem bytes_reported : (single ⟨#[0xff, 0xfe]⟩).Sound ∧ ∃ record ∈ (plainly.survey (single ⟨#[0xff, 0xfe]⟩)).records,
    plainly.layout.isSource record.extension = true ∧ record.classification = .unreadable record.extension ∧
      (plainly.inventory (single ⟨#[0xff, 0xfe]⟩)).Reports record.path ∧ NeverRewritten ⟨#[0xff, 0xfe]⟩ := by
  have computed : (single ⟨#[0xff, 0xfe]⟩).Sound ∧ ((⟨"/project/src/a.ts"⟩ : Path), Standing.inPlace) ∈
        Inventory.candidates (single ⟨#[0xff, 0xfe]⟩) plainly.layout plainly.excludes plainly.root ∧
      ((single ⟨#[0xff, 0xfe]⟩).read ⟨"/project/src/a.ts"⟩).toOption = some ⟨#[0xff, 0xfe]⟩ ∧
      plainly.layout.isSource (Path.mk "/project/src/a.ts").extension = true ∧
      Classification.decodeText ⟨#[0xff, 0xfe]⟩ = none := by
    decide +kernel
  obtain ⟨sound, candidate, held, isSource, notText⟩ := computed
  have held := Except.eq_ok_of_toOption held
  obtain ⟨stat, -, read⟩ := readRecord_eq held
  have recorded := plainly.mem_records_of_read _ candidate (read .inPlace)
  obtain ⟨content, held', agree, told, -, spared⟩ := unreadable_reported_iff sound recorded isSource
  cases held.symm.trans held'
  have reported := told.2 notText
  have verdict := (agree.2 fun zero => absurd notText zero.2).2 reported
  exact ⟨sound, _, recorded, isSource, verdict, reported, (spared reported).2.2⟩

theorem not_unreadable_always_reported : ¬ ∀ (project : Project) (d : Disk) (record : FileRecord), d.Sound ->
    record ∈ (project.survey d).records -> project.layout.isSource record.extension = true ->
    (record.classification = .unreadable record.extension ↔ (project.inventory d).Reports record.path) := by
  intro always
  have computed : (single "import './b'\x00".toUTF8).Sound ∧ ((⟨"/project/src/a.ts"⟩ : Path), Standing.inPlace) ∈
        Inventory.candidates (single "import './b'\x00".toUTF8) plainly.layout plainly.excludes plainly.root ∧
      ((single "import './b'\x00".toUTF8).read ⟨"/project/src/a.ts"⟩).toOption = some "import './b'\x00".toUTF8 ∧
      plainly.layout.isSource (Path.mk "/project/src/a.ts").extension = true ∧
      0 ∈ "import './b'\x00".toUTF8.data := by
    decide +kernel
  obtain ⟨sound, candidate, held, isSource, zero⟩ := computed
  have held := Except.eq_ok_of_toOption held
  obtain ⟨stat, -, read⟩ := readRecord_eq held
  have agree := always plainly _ _ sound (plainly.mem_records_of_read _ candidate (read .inPlace)) isSource
  have told := agree.1 ((Classification.ofContent_eq_unreadable_iff _ _).2 (.inl zero))
  have missing := (reports_iff sound candidate held isSource).1 told
  rw [Classification.decodeText_toUTF8] at missing
  cases missing

end Project

end Stowage

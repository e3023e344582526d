import Stowage.Disk.Setting
import Stowage.Proofs.Disk.Checking
import Stowage.Proofs.Execution.Turns
import Stowage.Proofs.Relocation.Noting

set_option autoImplicit false

namespace Stowage

theorem Site.createDir_becomes (site : Site) (regular : site.disk.Regular) (dir : Path) :
    site.disk.Becomes (site.createDir dir).2.disk [] site.disk.contents ∧
      ∃ entries, (site.createDir dir).2.ledger = site.ledger ++ entries ∧
        ∀ entry ∈ entries, entry.action = .createDir := by
  have made := Disk.makeFolders_becomes site.disk regular dir
  refine ⟨?_, site.createDir_ledger dir⟩
  unfold createDir
  split
  · exact .refl regular
  · generalize site.disk.makeFolders dir = outcome at made ⊢
    obtain ⟨result, disk⟩ := outcome
    cases result with
    | error problem => exact made
    | ok => exact made

namespace Project

structure Prepared (d : Disk) (progress : Progress) : Prop where
  unchanged : d.Becomes progress.site.disk [] d.contents
  ledger : ∀ entry ∈ progress.site.ledger, entry.action = .createDir
  landed : progress.landed = []
  fates : progress.fates = []
  executed : progress.execution.executed = []

theorem Prepared.makeRequired (project : Project) (d : Disk) (progress : Progress) (dir : Path)
    (prepared : Prepared d progress) : Prepared d (project.makeRequired progress dir) := by
  obtain ⟨becomes, entries, ledger, created⟩ :=
    progress.site.createDir_becomes prepared.unchanged.later.regular (project.root.join dir)
  rw [prepared.unchanged.held] at becomes
  have unchanged := prepared.unchanged.trans becomes
  have noted : ∀ entry ∈ (progress.site.createDir (project.root.join dir)).2.ledger,
      entry.action = .createDir := by
    intro entry inside
    rw [ledger] at inside
    rcases List.mem_append.1 inside with old | new
    · exact prepared.ledger entry old
    · exact created entry new
  unfold Project.makeRequired
  generalize progress.site.createDir (project.root.join dir) = outcome at unchanged noted ⊢
  obtain ⟨result, site⟩ := outcome
  cases result with
  | error error => exact ⟨unchanged, noted, prepared.landed, prepared.fates, prepared.executed⟩
  | ok made =>
    cases made with
    | none => exact ⟨unchanged, noted, prepared.landed, prepared.fates, prepared.executed⟩
    | some entry => exact ⟨unchanged, noted, prepared.landed, prepared.fates, prepared.executed⟩

def ready (project : Project) (site : Site) : Progress :=
  project.layout.requiredDirs.foldl project.makeRequired (.start site)

theorem prepared_ready (project : Project) (d : Disk) (regular : d.Regular) :
    Prepared d (project.ready ⟨d, []⟩) := by
  have all : ∀ (dirs : List Path) (progress : Progress), Prepared d progress ->
      Prepared d (dirs.foldl project.makeRequired progress) := by
    intro dirs
    induction dirs with
    | nil => exact fun _ prepared => prepared
    | cons dir rest ih => exact fun progress prepared => ih _ (prepared.makeRequired project d progress dir)
  exact all _ _ ⟨.refl regular, fun _ impossible => (nomatch impossible), rfl, rfl, rfl⟩

/-- The execution once some of the plans have had their turn. -/
def reached (project : Project) (carrier : Carrier) (d : Disk) (plans : List Plan) : Progress :=
  plans.foldl (project.executePlan carrier (project.survey d)) (project.ready ⟨d, []⟩)

theorem reached_concat (project : Project) (carrier : Carrier) (d : Disk) (plans : List Plan)
    (plan : Plan) : project.reached carrier d (plans ++ [plan]) =
      project.executePlan carrier (project.survey d) (project.reached carrier d plans) plan := by
  simp [reached]

theorem reached_executed (project : Project) (carrier : Carrier) (d : Disk) (before pending : List Plan)
    (step : Plan × LedgerEntry)
    (done : step ∈ (project.reached carrier d before).execution.executed) :
    step ∈ (project.reached carrier d (before ++ pending)).execution.executed := by
  induction pending generalizing before with
  | nil =>
    rw [List.append_nil]
    exact done
  | cons plan rest ih =>
    rw [← List.singleton_append, ← List.append_assoc]
    apply ih
    obtain ⟨new, executed⟩ := (project.executePlan_handled carrier (project.survey d)
      (project.reached carrier d before) plan).executed
    rw [reached_concat, executed]
    exact List.mem_append_left _ done

theorem relocateAll_eq (project : Project) (carrier : Carrier) (d : Disk) :
    project.relocateAll carrier (project.survey d) ⟨d, []⟩ =
      project.reached carrier d (project.survey d).plans := rfl

section

variable {project : Project} (orderly : project.Orderly) {d : Disk} (regular : d.Regular)

include orderly regular

theorem reached_induction (carrier : Carrier) (motive : List Plan -> Progress -> Prop)
    (start : motive [] (project.ready ⟨d, []⟩))
    (turn : ∀ before plan pending progress after,
      (project.survey d).plans = before ++ plan :: pending ->
      progress = project.reached carrier d before ->
      after = project.reached carrier d (before ++ [plan]) -> Underway d (plan :: pending) progress ->
      Turn progress plan after -> motive before progress -> motive (before ++ [plan]) after)
    (before pending : List Plan) (split : (project.survey d).plans = before ++ pending) :
    Underway d pending (project.reached carrier d before) ∧
      motive before (project.reached carrier d before) := by
  induction before using List.reverseRecOn generalizing pending with
  | nil =>
    have prepared := prepared_ready project d regular
    exact ⟨⟨prepared.unchanged.later, fun plan _ => .inr (prepared.unchanged.kept _ (by simp))⟩, start⟩
  | append_singleton before plan ih =>
    rw [List.append_assoc, List.singleton_append] at split
    obtain ⟨underway, begun⟩ := ih (plan :: pending) split
    have within : ∀ other ∈ plan :: pending, other ∈ (project.survey d).plans := by
      intro other member
      rw [split]
      exact List.mem_append_right _ member
    -- No file is planned twice, so that the turn of this plan leaves the sources still pending.
    have distinct : ((plan :: pending).map fun other => other.source.components).Nodup := by
      have all := nodup_plans orderly regular
      rw [split, List.map_append] at all
      exact all.of_append_right
    have turned := executePlan_turn orderly regular carrier (project.reached carrier d before) pending plan
      underway (within plan List.mem_cons_self)
    rw [← reached_concat] at turned
    exact ⟨underway.turn orderly regular _ _ pending plan within distinct turned,
      turn before plan pending _ _ split rfl rfl underway turned begun⟩

theorem relocated_later (carrier : Carrier) :
    d.Later (project.relocateAll carrier (project.survey d) ⟨d, []⟩).site.disk := by
  have run := reached_induction orderly regular carrier (fun _ _ => True) trivial
    (fun _ _ _ _ _ _ _ _ _ _ _ => trivial) (project.survey d).plans [] (List.append_nil _).symm
  rw [relocateAll_eq]
  exact run.1.later

end

def stagedAgain : Disk :=
  [Path.mk "src/utils/card.tsx", ⟨"downloads/card.ts"⟩].foldl
    (fun d path => d.settle path
      (.file "export const Card = () => <b>card</b>;".toUTF8 Disk.newFileMode ⟨1, 0⟩))
    (.bare ["project"] ⟨2, 0⟩)

theorem stagedAgain_regular : stagedAgain.Regular := by decide +kernel

end Project

end Stowage

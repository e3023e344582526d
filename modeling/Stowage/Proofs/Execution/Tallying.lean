import Stowage.Proofs.Execution.Handling
import Stowage.Proofs.Relocation.Noting
import Stowage.Report.Basic

set_option autoImplicit false

namespace Stowage

namespace Ledger

def relocations (ledger : Ledger) : Ledger := ledger.filter fun entry => entry.action.isRelocation

theorem relocations_append (first second : Ledger) :
    relocations (first ++ second) = first.relocations ++ second.relocations := List.filter_append ..

theorem relocations_eq_nil {ledger : Ledger} (others : ∀ entry ∈ ledger, entry.action.isRelocation = false) :
    ledger.relocations = [] := by
  simpa [relocations] using others

theorem count_relocations (ledger : Ledger) (decision : Decision) :
    ledger.relocations.count (.relocate decision) = ledger.count (.relocate decision) := by
  simp only [count, relocations, List.countP_filter]
  refine List.countP_congr fun entry _ => ?_
  cases entry.action <;> simp [Action.isRelocation]

end Ledger

namespace Project

structure Tallied (progress : Progress) : Prop where
  listed : progress.site.ledger.relocations = progress.execution.executed.map Prod.snd
  decided : ∀ step ∈ progress.execution.executed, step.2.action = .relocate step.1.decision

theorem Tallied.more {progress after : Progress} (tallied : Tallied progress) {entries : Ledger}
    (ledger : after.site.ledger = progress.site.ledger ++ entries)
    (others : ∀ entry ∈ entries, entry.action.isRelocation = false)
    (executed : after.execution.executed = progress.execution.executed) : Tallied after := by
  constructor
  · rw [ledger, Ledger.relocations_append, Ledger.relocations_eq_nil others, List.append_nil, tallied.listed,
      executed]
  · rw [executed]
    exact tallied.decided

theorem Tallied.makeRequired (project : Project) {progress : Progress} (tallied : Tallied progress) (dir : Path) :
    Tallied (project.makeRequired progress dir) := by
  obtain ⟨entries, ledger, created⟩ := progress.site.createDir_ledger (project.root.join dir)
  have others : ∀ entry ∈ entries, entry.action.isRelocation = false := by
    intro entry inside
    rw [created entry inside]
    rfl
  unfold Project.makeRequired
  generalize progress.site.createDir (project.root.join dir) = outcome at ledger ⊢
  obtain ⟨result, site⟩ := outcome
  cases result with
  | error error => exact tallied.more ledger others rfl
  | ok made => cases made <;> exact tallied.more ledger others rfl

theorem Tallied.executePlan (project : Project) (carrier : Carrier) (survey : Survey) {progress : Progress}
    (tallied : Tallied progress) (plan : Plan) :
    Tallied (project.executePlan carrier survey progress plan) := by
  have idle : ∀ {after issues}, Idle progress after issues -> Tallied after := by
    intro after issues idle
    exact tallied.more (by rw [idle.site, List.append_nil]) (by simp) idle.executed
  cases project.executePlan_handled carrier survey progress plan with
  | unknown _ still | outdated _ still | failed _ still => exact idle still
  | @carried _ decision outcome _ _ carried =>
    have ended := carrier.execute_ended progress.site decision plan.source plan.destination
    rw [carried.ran] at ended
    have executed := carried.executed
    cases ended with
    | failed failed =>
      obtain ⟨entries, ledger, copies⟩ := failed.ledger
      refine tallied.more ledger (fun entry inside => ?_) executed
      rw [copies entry inside]
      rfl
    | @done done _ noted =>
      -- What was carried out is the last of both lists.
      obtain ⟨landed, backup, time, entry⟩ := noted.entry
      simp only [executedAfter] at executed
      constructor
      · rw [noted.ledger, executed, Ledger.relocations_append, tallied.listed, List.map_append]
        simp [Ledger.relocations, entry, Action.isRelocation]
      · intro step inside
        rw [executed] at inside
        rcases List.mem_append.1 inside with earlier | last
        · exact tallied.decided step earlier
        · obtain rfl := List.mem_singleton.1 last
          simp [entry]

theorem Tallied.rewriteFile {progress : Progress} (tallied : Tallied progress) (step : Path × List Edit) :
    Tallied (rewriteFile progress step) := by
  unfold Project.rewriteFile
  split
  · exact tallied.more (List.append_nil _).symm (by simp) rfl
  · exact tallied
  · exact tallied.more rfl (by simp [Action.isRelocation]) rfl

theorem Tallied.foldl {Item : Type} (act : Progress -> Item -> Progress)
    (keeps : ∀ progress item, Tallied progress -> Tallied (act progress item)) (items : List Item)
    {progress : Progress} (tallied : Tallied progress) : Tallied (items.foldl act progress) := by
  induction items generalizing progress with
  | nil => exact tallied
  | cons item rest ih => exact ih (keeps progress item tallied)

theorem execute_tallied (project : Project) (carrier : Carrier) (survey : Survey) (d : Disk) :
    (project.execute carrier survey ⟨d, []⟩).2.ledger.relocations =
        (project.execute carrier survey ⟨d, []⟩).1.executed.map Prod.snd ∧
      ∀ step ∈ (project.execute carrier survey ⟨d, []⟩).1.executed,
        step.2.action = .relocate step.1.decision := by
  have start : Tallied (.start ⟨d, []⟩) := ⟨rfl, by simp [Progress.start, Execution.empty]⟩
  have ready := start.foldl project.makeRequired (fun _ dir tallied => tallied.makeRequired project dir)
    project.layout.requiredDirs
  have relocated := ready.foldl (project.executePlan carrier survey)
    (fun _ plan tallied => tallied.executePlan project carrier survey plan) survey.plans
  have done := relocated.foldl Project.rewriteFile (fun _ step tallied => tallied.rewriteFile step)
    (Specifier.rewrites survey.edges (project.relocateAll carrier survey ⟨d, []⟩).fates
      (project.root.join project.layout.sourceDir))
  exact ⟨done.listed, done.decided⟩

end Project

end Stowage

import Stowage.Proofs.Execution.Relocating
import Stowage.Proofs.Execution.Rewriting

set_option autoImplicit false

namespace Stowage

theorem Ledger.replay_append (home : Location) (first second : Ledger) (files : Files) :
    Ledger.replay home (first ++ second) files =
      Ledger.replay home second (Ledger.replay home first files) := by
  simp [Ledger.replay]

theorem Ledger.replay_created (home : Location) (ledger : Ledger) (files : Files)
    (created : ∀ entry ∈ ledger, entry.action = .createDir) : Ledger.replay home ledger files = files := by
  induction ledger with
  | nil => rfl
  | cons entry rest ih =>
    have same : entry.replay home files = files := by
      simp [LedgerEntry.replay, created entry List.mem_cons_self]
    rw [Ledger.replay, List.foldl_cons, same]
    exact ih fun other inside => created other (List.mem_cons_of_mem _ inside)

def Ledger.Rewritten (home : Location) (ledger : Ledger) (place : Location) : Prop :=
  ∃ entry ∈ ledger, entry.action = .rewriteImports ∧ entry.source.place home = place

/-- The files a ledger accounts for: those and no others, each with what it holds unless its imports were
rewritten. -/
def Ledger.Accounts (home : Location) (ledger : Ledger) (before after : Files) : Prop :=
  ∀ place, (Ledger.replay home ledger before place).isSome = (after place).isSome ∧
    (¬ ledger.Rewritten home place -> Ledger.replay home ledger before place = after place)

theorem Ledger.replay_rewritten (home : Location) (ledger : Ledger) (file : Path) (time : Instant)
    (files : Files) :
    Ledger.replay home (ledger ++ [⟨.rewriteImports, file, none, none, time⟩]) files =
      Ledger.replay home ledger files := by
  rw [Ledger.replay_append]
  rfl

namespace Project

theorem Rewrote.accounts {d : Disk} {progress after : Progress} {step : Path × List Edit} {text : String}
    (rewrote : Rewrote progress step text after) (later : d.Later progress.site.disk)
    (accounts : progress.site.ledger.Accounts d.home d.contents progress.site.disk.contents) :
    after.site.ledger.Accounts d.home d.contents after.site.disk.contents := by
  obtain ⟨time, ledger⟩ := rewrote.ledger
  have before := rewrote.before
  rw [later.home] at before
  intro place
  obtain ⟨present, same⟩ := accounts place
  rw [ledger, Ledger.replay_rewritten, rewrote.written.held, later.home]
  by_cases here : place = step.1.place d.home
  · -- The file is named by the new entry, so that only its presence has to be accounted for.
    subst here
    rw [Function.update_self, present, before]
    refine ⟨rfl, fun missed => absurd ?_ missed⟩
    exact ⟨_, List.mem_append_right _ (List.mem_singleton_self _), rfl, rfl⟩
  · rw [Function.update_of_ne here]
    refine ⟨present, fun missed => same ?_⟩
    rintro ⟨entry, inside, action, there⟩
    exact missed ⟨entry, List.mem_append_left _ inside, action, there⟩

section

variable {project : Project} (orderly : project.Orderly) {d : Disk} (regular : d.Regular)

include orderly regular

theorem relocations_replayed (carrier : Carrier) (privileged : d.privileged = true) :
    d.Later (project.relocateAll carrier (project.survey d) ⟨d, []⟩).site.disk ∧
      (project.relocateAll carrier (project.survey d) ⟨d, []⟩).site.disk.contents =
        Ledger.replay d.home
          (project.relocateAll carrier (project.survey d) ⟨d, []⟩).site.ledger d.contents := by
  have turns : ∀ before plan pending progress after,
      (project.survey d).plans = before ++ plan :: pending ->
      progress = project.reached carrier d before ->
      after = project.reached carrier d (before ++ [plan]) -> Underway d (plan :: pending) progress ->
      Turn progress plan after ->
      progress.site.disk.contents = Ledger.replay d.home progress.site.ledger d.contents ->
      after.site.disk.contents = Ledger.replay d.home after.site.ledger d.contents := by
    intro before plan pending progress after split _ _ underway turn replayed
    cases turn with
    | idle site => rw [site, replayed]
    | acted tells own decided did ledger =>
      -- The turn adds its entries at the end, where they are replayed on what the turn found.
      have member : plan ∈ (project.survey d).plans := by
        rw [split]
        exact List.mem_append_right _ List.mem_cons_self
      obtain ⟨-, ended, -⟩ := plan_shape orderly regular plan member
      have movable : Carrier.Movable progress.site.disk plan.source :=
        ⟨underway.later.privileged.trans privileged, ended⟩
      rw [did.replayed movable, underway.later.home, replayed, ledger, Ledger.replay_append]
  have start : (project.ready ⟨d, []⟩).site.disk.contents =
      Ledger.replay d.home (project.ready ⟨d, []⟩).site.ledger d.contents := by
    have prepared := prepared_ready project d regular
    rw [prepared.unchanged.held, Ledger.replay_created _ _ _ prepared.ledger]
  have run := reached_induction orderly regular carrier
    (fun _ progress => progress.site.disk.contents =
      Ledger.replay d.home progress.site.ledger d.contents)
    start turns (project.survey d).plans [] (List.append_nil _).symm
  rw [relocateAll_eq]
  exact ⟨run.1.later, run.2⟩

/-- The ledger of an execution accounts for all files: none is made, changed or taken away without an
entry. -/
theorem ledger_accounts (carrier : Carrier) (privileged : d.privileged = true) :
    (project.execute carrier (project.survey d) ⟨d, []⟩).2.ledger.Accounts d.home d.contents
      (project.execute carrier (project.survey d) ⟨d, []⟩).2.disk.contents := by
  obtain ⟨later, replayed⟩ := relocations_replayed orderly regular carrier privileged
  have all : ∀ (steps : List (Path × List Edit)) (progress : Progress), d.Later progress.site.disk ->
      progress.site.ledger.Accounts d.home d.contents progress.site.disk.contents ->
      (steps.foldl rewriteFile progress).site.ledger.Accounts d.home d.contents
        (steps.foldl rewriteFile progress).site.disk.contents := by
    intro steps
    induction steps with
    | nil => exact fun _ _ accounts => accounts
    | cons step rest ih =>
      intro progress later accounts
      rw [List.foldl_cons]
      rcases rewriteFile_cases progress later.regular step with ⟨same, -⟩ | ⟨text, rewrote⟩
      · exact ih _ (by rw [same]; exact later) (by rw [same]; exact accounts)
      · exact ih _ (later.trans rewrote.written.later) (rewrote.accounts later accounts)
  rw [execute_site, rewritten]
  refine all _ _ later fun place => ?_
  rw [replayed]
  exact ⟨rfl, fun _ => rfl⟩

end

theorem stagedAgain_accounted :
    Project.Orderly ⟨⟨"/project"⟩, .usual, .usual⟩ ∧ stagedAgain.Regular ∧
      stagedAgain.privileged = true ∧
      (Project.execute ⟨⟨"/project"⟩, .usual, .usual⟩ ⟨"stamp", ["sh"]⟩
          (Project.survey ⟨⟨"/project"⟩, .usual, .usual⟩ stagedAgain) ⟨stagedAgain, []⟩).2.ledger.Accounts
        stagedAgain.home stagedAgain.contents
        (Project.execute ⟨⟨"/project"⟩, .usual, .usual⟩ ⟨"stamp", ["sh"]⟩
          (Project.survey ⟨⟨"/project"⟩, .usual, .usual⟩ stagedAgain) ⟨stagedAgain, []⟩).2.disk.contents := by
  have orderly : Project.Orderly ⟨⟨"/project"⟩, .usual, .usual⟩ := orderly_usual _ _ (by decide)
  have privileged : stagedAgain.privileged = true := by decide +kernel
  exact ⟨orderly, stagedAgain_regular, privileged,
    ledger_accounts orderly stagedAgain_regular ⟨"stamp", ["sh"]⟩ privileged⟩

end Project

end Stowage

import Stowage.Proofs.Execution.Editing

set_option autoImplicit false

namespace Stowage.Project

structure Dropped (progress : Progress) (plan : Plan) (after : Progress) (content : ByteArray) : Prop where
  executed : ∃ entry, after.execution.executed =
    progress.execution.executed ++ [({ plan with decision := .skipOlder }, entry)]
  held : progress.site.disk.contents (plan.source.place progress.site.disk.home) = some content
  gone : after.site.disk.contents (plan.source.place progress.site.disk.home) = none

/-- A plan is listed as carried out that, when its turn came, dropped a source that held this content as
older. -/
def DropsOlder (project : Project) (carrier : Carrier) (d : Disk) (content : ByteArray) : Prop :=
  ∃ before plan pending entry, (project.survey d).plans = before ++ plan :: pending ∧
    ({ plan with decision := .skipOlder }, entry) ∈
      (project.execute carrier (project.survey d) ⟨d, []⟩).1.executed ∧
    (project.reached carrier d before).site.disk.contents (plan.source.place d.home) = some content ∧
    (project.reached carrier d (before ++ [plan])).site.disk.contents (plan.source.place d.home) = none

/-- A file that held this content is listed as rewritten, and now holds its rewritten text. -/
def Rewrites (project : Project) (carrier : Carrier) (d : Disk) (content : ByteArray) : Prop :=
  ∃ step ∈ project.editsAfter (project.survey d)
      (project.relocateAll carrier (project.survey d) ⟨d, []⟩), ∃ text : String,
    content = text.toUTF8 ∧
    (project.relocateAll carrier (project.survey d) ⟨d, []⟩).site.disk.contents
      (step.1.place d.home) = some content ∧
    step.1 ∈ (project.execute carrier (project.survey d) ⟨d, []⟩).1.rewritten ∧
    (project.execute carrier (project.survey d) ⟨d, []⟩).2.disk.contents (step.1.place d.home) =
      some (rewriteImports step.2 text).toUTF8

theorem Dropped.dropsOlder {project : Project} {carrier : Carrier} {d : Disk} {content : ByteArray}
    {before pending : List Plan} {plan : Plan}
    (dropped : Dropped (project.reached carrier d before) plan
      (project.reached carrier d (before ++ [plan])) content)
    (later : d.Later (project.reached carrier d before).site.disk)
    (split : (project.survey d).plans = before ++ plan :: pending) :
    project.DropsOlder carrier d content := by
  obtain ⟨⟨entry, executed⟩, held, gone⟩ := dropped
  rw [later.home] at held gone
  refine ⟨before, plan, pending, entry, split, ?_, held, gone⟩
  rw [execute_execution, rewritten_executed, relocateAll_eq, split, ← List.singleton_append,
    ← List.append_assoc]
  apply reached_executed
  rw [executed]
  exact List.mem_append_right _ (List.mem_singleton_self _)

section

variable {project : Project} (orderly : project.Orderly) {d : Disk} (regular : d.Regular)

include orderly regular

theorem turn_holds (progress after : Progress) (pending : List Plan) (plan : Plan)
    (underway : Underway d (plan :: pending) progress) (member : plan ∈ (project.survey d).plans)
    (injective : ∀ first second, progress.site.disk.contents.Holds first ->
      progress.site.disk.contents.Holds second -> Sha256.hex first = Sha256.hex second -> first = second)
    (turn : Turn progress plan after) (content : ByteArray)
    (held : progress.site.disk.contents.Holds content) :
    after.site.disk.contents.Holds content ∨ Dropped progress plan after content := by
  cases turn with
  | idle site =>
    rw [site]
    exact .inl held
  | @acted record decision outcome _ tells own decided did _ _ _ executed =>
    have regular' := underway.later.regular
    obtain ⟨plain, -, cases, differs⟩ := plan_shape orderly regular plan member
    have apart := apart_of_cases progress.site.disk plan.source plan.destination plain differs cases
    obtain ⟨from', content', recorded, digest, -⟩ := tells.file regular'
    rw [own] at from' recorded
    have open' : decision = .move -> plan.destination.components.getLast? ≠ some .up ->
        progress.site.disk.contents (plan.destination.place progress.site.disk.home) = none := by
      rintro rfl level
      exact open_of_move _ regular' record plan.destination cases level decided
    -- The bytes of an identical source are held at its destination, which is another place.
    have twice : decision = .identical -> progress.site.disk.contents.Safe
        (plan.source.place progress.site.disk.home) (plan.source.place progress.site.disk.home) := by
      rintro rfl other held'
      obtain ⟨copy, read, same⟩ := Decision.read_of_identical _ record plan.destination decided
      obtain ⟨held'', mode, modified, found⟩ :=
        Disk.contents_of_read _ regular' plan.destination copy read
      have beside := apart (Carrier.HasFile.not_up regular' ⟨copy, mode, modified, found⟩)
      have equal := injective copy content' ⟨_, held''⟩ ⟨_, recorded⟩ (same.trans digest)
      rw [recorded] at held'
      cases held'
      exact ⟨_, beside, beside, by rw [held'', equal]⟩
    rcases did.holds regular' apart from' open' twice content held with kept | ⟨rfl, ⟨done, rfl⟩, own'⟩
    · exact .inl kept
    · refine .inr ⟨⟨done.entry, executed⟩, own', ?_⟩
      cases did with
      | dropped _ _ removed =>
        rw [removed.held, Files.drop, Function.update_self]

theorem relocated_holds (carrier : Carrier)
    (injective : ∀ first second, d.contents.Holds first -> d.contents.Holds second ->
      Sha256.hex first = Sha256.hex second -> first = second) (content : ByteArray)
    (held : d.contents.Holds content) :
    d.Later (project.relocateAll carrier (project.survey d) ⟨d, []⟩).site.disk ∧
      ((project.relocateAll carrier (project.survey d) ⟨d, []⟩).site.disk.contents.Holds content ∨
        project.DropsOlder carrier d content) := by
  have start : (project.ready ⟨d, []⟩).site.disk.contents = d.contents :=
    (prepared_ready project d regular).unchanged.held
  -- Nothing new is held on the way, so that the digests stay telling; a content is held or was dropped as older.
  have run := reached_induction orderly regular carrier
    (fun _ progress => (∀ other, progress.site.disk.contents.Holds other -> d.contents.Holds other) ∧
      (progress.site.disk.contents.Holds content ∨ project.DropsOlder carrier d content))
    (by
      rw [start]
      exact ⟨fun _ other => other, .inl held⟩)
    (by
      intro before plan pending progress after split here there underway turn ⟨within, held⟩
      have member : plan ∈ (project.survey d).plans := by simp [split]
      have injective' : ∀ first second, progress.site.disk.contents.Holds first ->
          progress.site.disk.contents.Holds second -> Sha256.hex first = Sha256.hex second ->
          first = second := fun first second one other =>
        injective first second (within first one) (within second other)
      constructor
      · intro other held'
        refine within other ?_
        cases turn with
        | idle site =>
          rw [site] at held'
          exact held'
        | acted _ _ _ did => exact did.held other held'
      · rcases held with held | lost
        · rcases turn_holds orderly regular progress after pending plan underway member injective' turn
            content held with kept | dropped
          · exact .inl kept
          · rw [here, there] at dropped
            rw [here] at underway
            exact .inr (dropped.dropsOlder underway.later split)
        · exact .inr lost)
    (project.survey d).plans [] (List.append_nil _).symm
  rw [relocateAll_eq]
  exact ⟨run.1.later, run.2.2⟩

/-- No content is lost where digests tell the contents apart: what a file held before an execution a file
holds after it, unless a source that held it was dropped as older or its file was rewritten. -/
theorem contents_conserved (carrier : Carrier)
    (injective : ∀ first second, d.contents.Holds first -> d.contents.Holds second ->
      Sha256.hex first = Sha256.hex second -> first = second) (content : ByteArray)
    (held : d.contents.Holds content) :
    (project.execute carrier (project.survey d) ⟨d, []⟩).2.disk.contents.Holds content ∨
      project.DropsOlder carrier d content ∨ project.Rewrites carrier d content := by
  obtain ⟨later, still | dropped⟩ := relocated_holds orderly regular carrier injective content held
  · rw [Rewrites, execute_site, execute_execution, rewritten]
    obtain ⟨place, there⟩ := still
    have distinct := edits_distinct orderly regular carrier d.home
    rcases rewriteAll_holds (project.editsAfter (project.survey d) _) _ later.regular
      (by rw [later.home]; exact distinct) place content there with kept | found
    · exact .inl ⟨place, kept⟩
    · obtain ⟨step, member, text, here, decoded, listed, rewritten⟩ := found
      rw [later.home] at here
      subst here
      exact .inr (.inr ⟨step, member, text, decoded, there, listed, rewritten⟩)
  · exact .inr (.inl dropped)

end

theorem stagedAgain_conserved :
    Project.Orderly ⟨⟨"/project"⟩, .usual, .usual⟩ ∧ stagedAgain.Regular ∧
      stagedAgain.contents.Holds "export const Card = () => <b>card</b>;".toUTF8 ∧
      ((Project.execute ⟨⟨"/project"⟩, .usual, .usual⟩ ⟨"stamp", ["sh"]⟩
          (Project.survey ⟨⟨"/project"⟩, .usual, .usual⟩ stagedAgain)
          ⟨stagedAgain, []⟩).2.disk.contents.Holds "export const Card = () => <b>card</b>;".toUTF8 ∨
        Project.DropsOlder ⟨⟨"/project"⟩, .usual, .usual⟩ ⟨"stamp", ["sh"]⟩ stagedAgain
          "export const Card = () => <b>card</b>;".toUTF8 ∨
        Project.Rewrites ⟨⟨"/project"⟩, .usual, .usual⟩ ⟨"stamp", ["sh"]⟩ stagedAgain
          "export const Card = () => <b>card</b>;".toUTF8) := by
  have orderly : Project.Orderly ⟨⟨"/project"⟩, .usual, .usual⟩ := orderly_usual _ _ (by decide)
  have only : ∀ content, stagedAgain.contents.Holds content ->
      content = "export const Card = () => <b>card</b>;".toUTF8 := by
    intro content held
    have all : ∀ content ∈ stagedAgain.heldContents,
        content = "export const Card = () => <b>card</b>;".toUTF8 := by decide +kernel
    exact all content ((stagedAgain.mem_heldContents_iff content).2 held)
  have held : stagedAgain.contents.Holds "export const Card = () => <b>card</b>;".toUTF8 :=
    ⟨["project", "downloads", "card.ts"], by decide +kernel⟩
  exact ⟨orderly, stagedAgain_regular, held,
    contents_conserved orderly stagedAgain_regular ⟨"stamp", ["sh"]⟩
      (fun first second one other _ => (only first one).trans (only second other).symm) _ held⟩

end Stowage.Project

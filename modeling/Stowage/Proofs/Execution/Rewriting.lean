import Stowage.Execution
import Stowage.Proofs.Relocation.Outcomes

set_option autoImplicit false

namespace Stowage

theorem bytes_of_decoded (content : ByteArray) (text : String)
    (decoded : String.fromUTF8? content = some text) : content = text.toUTF8 := by
  unfold String.fromUTF8? at decoded
  split at decoded
  · cases decoded
    rfl
  · cases decoded

theorem Disk.readText_eq_ok {d : Disk} {p : Path} {text : String} (read : d.readText p = .ok text) :
    d.read p = .ok text.toUTF8 := by
  unfold readText at read
  split at read
  · cases read
  next content held =>
    split at read
    next decoded =>
      cases read
      rw [held, bytes_of_decoded content text decoded]
    · cases read

theorem content_of_readText (d : Disk) (regular : d.Regular) (p : Path) (text : String)
    (read : d.readText p = .ok text) : d.contents (p.place d.home) = some text.toUTF8 :=
  (Disk.contents_of_read d regular p _ (Disk.readText_eq_ok read)).1

theorem applyEdits_eq_ok {d after : Disk} {file : Path} {edits : List Edit} {changed : Bool}
    (applied : applyEdits d file edits = .ok (changed, after)) :
    ∃ text, d.readText file = .ok text ∧
      (changed = false ∧ rewriteImports edits text = text ∧ after = d ∨
        changed = true ∧ rewriteImports edits text ≠ text ∧
          d.write file (rewriteImports edits text).toUTF8 = .ok after) := by
  unfold applyEdits at applied
  split at applied
  · cases applied
  next text read =>
    simp only at applied
    split at applied
    next same =>
      cases applied
      exact ⟨text, read, .inl ⟨rfl, same, rfl⟩⟩
    next differs =>
      split at applied
      · cases applied
      next written stored =>
        cases applied
        exact ⟨text, read, .inr ⟨rfl, differs, stored⟩⟩

namespace Project

def editsAfter (project : Project) (survey : Survey) (relocated : Progress) : List (Path × List Edit) :=
  Specifier.rewrites survey.edges relocated.fates (project.root.join project.layout.sourceDir)

def rewritten (project : Project) (carrier : Carrier) (survey : Survey) (site : Site) : Progress :=
  (project.editsAfter survey (project.relocateAll carrier survey site)).foldl rewriteFile
    (project.relocateAll carrier survey site)

theorem execute_site (project : Project) (carrier : Carrier) (survey : Survey) (site : Site) :
    (project.execute carrier survey site).2 = (project.rewritten carrier survey site).site := rfl

theorem execute_execution (project : Project) (carrier : Carrier) (survey : Survey) (site : Site) :
    (project.execute carrier survey site).1 = (project.rewritten carrier survey site).execution := rfl

structure Rewrote (progress : Progress) (step : Path × List Edit) (text : String) (after : Progress) :
    Prop where
  before : progress.site.disk.contents (step.1.place progress.site.disk.home) = some text.toUTF8
  written : progress.site.disk.Becomes after.site.disk [step.1.place progress.site.disk.home]
    (Function.update progress.site.disk.contents (step.1.place progress.site.disk.home)
      (some (rewriteImports step.2 text).toUTF8))
  ledger : ∃ time, after.site.ledger =
    progress.site.ledger ++ [⟨.rewriteImports, step.1, none, none, time⟩]
  listed : after.execution.rewritten = progress.execution.rewritten ++ [step.1]

theorem rewriteFile_cases (progress : Progress) (regular : progress.site.disk.Regular)
    (step : Path × List Edit) :
    ((rewriteFile progress step).site = progress.site ∧
        (rewriteFile progress step).execution.rewritten = progress.execution.rewritten ∧
        ((∃ issue ∈ (rewriteFile progress step).execution.issues, issue.kind = .executionError) ∨
          ∃ text : String, rewriteImports step.2 text = text ∧
            progress.site.disk.contents (step.1.place progress.site.disk.home) = some text.toUTF8)) ∨
      ∃ text, Rewrote progress step text (rewriteFile progress step) := by
  unfold rewriteFile
  -- The file is not read or written, it is left as it was, or it is written anew.
  cases applied : applyEdits progress.site.disk step.1 step.2 with
  | error error =>
    exact .inl ⟨rfl, rfl, .inl ⟨error.issue, List.mem_append_right _ (List.mem_singleton_self _), rfl⟩⟩
  | ok result =>
    obtain ⟨changed, disk⟩ := result
    obtain ⟨text, read, ⟨rfl, same, rfl⟩ | ⟨rfl, -, stored⟩⟩ := applyEdits_eq_ok applied
    · exact .inl ⟨rfl, rfl, .inr ⟨text, same, content_of_readText _ regular step.1 text read⟩⟩
    · obtain ⟨becomes, -⟩ := Disk.write_becomes _ regular step.1 _ disk stored
      exact .inr ⟨text, content_of_readText _ regular step.1 text read, becomes, ⟨_, rfl⟩, rfl⟩

theorem rewriteFile_executed (progress : Progress) (step : Path × List Edit) :
    (rewriteFile progress step).execution.executed = progress.execution.executed := by
  unfold rewriteFile
  split <;> rfl

theorem foldl_kept {Item Value : Type} (key : Progress -> Value) {turn : Progress -> Item -> Progress}
    (kept : ∀ progress item, key (turn progress item) = key progress) (items : List Item) (progress : Progress) :
    key (items.foldl turn progress) = key progress := by
  induction items generalizing progress with
  | nil => rfl
  | cons item rest ih => rw [List.foldl_cons, ih, kept]

theorem rewritten_executed (project : Project) (carrier : Carrier) (survey : Survey) (site : Site) :
    (project.rewritten carrier survey site).execution.executed =
      (project.relocateAll carrier survey site).execution.executed :=
  foldl_kept (fun progress => progress.execution.executed) rewriteFile_executed _ _

theorem rewriteFile_later (progress : Progress) (regular : progress.site.disk.Regular)
    (step : Path × List Edit) : progress.site.disk.Later (rewriteFile progress step).site.disk := by
  rcases rewriteFile_cases progress regular step with ⟨site, -⟩ | ⟨text, rewrote⟩
  · rw [site]
    exact .refl regular
  · exact rewrote.written.later

theorem rewriteAll_later (steps : List (Path × List Edit)) (progress : Progress)
    (regular : progress.site.disk.Regular) :
    progress.site.disk.Later (steps.foldl rewriteFile progress).site.disk := by
  induction steps generalizing progress with
  | nil => exact .refl regular
  | cons step rest ih =>
    have later := rewriteFile_later progress regular step
    exact later.trans (ih (rewriteFile progress step) later.regular)

theorem rewriteAll_kept (steps : List (Path × List Edit)) (progress : Progress)
    (regular : progress.site.disk.Regular) (place : Location)
    (missed : place ∉ steps.map fun step => step.1.place progress.site.disk.home) :
    (steps.foldl rewriteFile progress).site.disk.contents place = progress.site.disk.contents place ∧
      ∀ path ∈ progress.execution.rewritten,
        path ∈ (steps.foldl rewriteFile progress).execution.rewritten := by
  induction steps generalizing progress with
  | nil => exact ⟨rfl, fun _ listed => listed⟩
  | cons step rest ih =>
    simp only [List.map_cons, List.mem_cons, not_or] at missed
    rw [List.foldl_cons]
    rcases rewriteFile_cases progress regular step with ⟨site, rewritten, -⟩ | ⟨text, rewrote⟩
    · have later := ih (rewriteFile progress step) (by rw [site]; exact regular)
        (by rw [site]; exact missed.2)
      rw [site, rewritten] at later
      exact later
    · have written := rewrote.written
      have later := ih (rewriteFile progress step) written.later.regular
        (by rw [written.later.home]; exact missed.2)
      rw [written.held, Function.update_of_ne missed.1, rewrote.listed] at later
      exact ⟨later.1, fun path listed => later.2 path (List.mem_append_left _ listed)⟩

theorem rewriteAll_holds (steps : List (Path × List Edit)) (progress : Progress)
    (regular : progress.site.disk.Regular)
    (distinct : (steps.map fun step => step.1.place progress.site.disk.home).Nodup) (place : Location)
    (content : ByteArray) (held : progress.site.disk.contents place = some content) :
    (steps.foldl rewriteFile progress).site.disk.contents place = some content ∨
      ∃ step ∈ steps, ∃ text : String, step.1.place progress.site.disk.home = place ∧
        content = text.toUTF8 ∧
        step.1 ∈ (steps.foldl rewriteFile progress).execution.rewritten ∧
        (steps.foldl rewriteFile progress).site.disk.contents place =
          some (rewriteImports step.2 text).toUTF8 := by
  induction steps generalizing progress with
  | nil => exact .inl held
  | cons step rest ih =>
    rw [List.map_cons, List.nodup_cons] at distinct
    rw [List.foldl_cons]
    rcases rewriteFile_cases progress regular step with ⟨site, -⟩ | ⟨text, rewrote⟩
    · rcases ih (rewriteFile progress step) (by rw [site]; exact regular)
        (by rw [site]; exact distinct.2) (by rw [site]; exact held) with kept | ⟨other, member, found⟩
      · exact .inl kept
      · rw [site] at found
        exact .inr ⟨other, List.mem_cons_of_mem _ member, found⟩
    · have written := rewrote.written
      have home := written.later.home
      by_cases here : place = step.1.place progress.site.disk.home
      · subst here
        -- Its own turn has come, and as no other names this place, nothing more is done to it.
        have before := rewrote.before
        rw [held] at before
        obtain ⟨same, listed⟩ := rewriteAll_kept rest (rewriteFile progress step) written.later.regular _
          (by rw [home]; exact distinct.1)
        refine .inr ⟨step, List.mem_cons_self, text, rfl, Option.some.inj before, listed _ ?_, ?_⟩
        · rw [rewrote.listed]
          exact List.mem_append_right _ (List.mem_singleton_self _)
        · rw [same, written.held, Function.update_self]
      · have held' : (rewriteFile progress step).site.disk.contents place = some content := by
          rw [written.held, Function.update_of_ne here, held]
        rcases ih (rewriteFile progress step) written.later.regular (by rw [home]; exact distinct.2) held'
          with kept | ⟨other, member, found⟩
        · exact .inl kept
        · rw [home] at found
          exact .inr ⟨other, List.mem_cons_of_mem _ member, found⟩

end Project

end Stowage

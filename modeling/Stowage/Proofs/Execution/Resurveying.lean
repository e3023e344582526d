import Stowage.Proofs.Execution.Following
import Stowage.Proofs.Execution.Knowing
import Stowage.Proofs.Relocation.Leaving
import Stowage.Proofs.Survey.Settling
import Stowage.Run

set_option autoImplicit false

namespace Stowage

/-- A report of no conflict, no file that could not be read and no action that failed. -/
def Report.Untroubled (report : Report) : Prop :=
  report.conflicts = [] ∧ ∀ issue ∈ report.issues, issue.kind ≠ .readError ∧ issue.kind ≠ .executionError

instance (report : Report) : Decidable report.Untroubled :=
  decidable_of_iff (report.conflicts.isEmpty = true ∧ ∀ issue ∈ report.issues,
      issue.kind ≠ .readError ∧ issue.kind ≠ .executionError)
    (and_congr_left' List.isEmpty_iff)

namespace Ledger

def Backs (ledger : Ledger) (home : Location) (place : Location) : Prop :=
  ∃ entry ∈ ledger, ∃ kept ∈ entry.backup, kept.place home = place

def Rewrites (ledger : Ledger) (home : Location) (place : Location) : Prop :=
  ∃ entry ∈ ledger, entry.action = .rewriteImports ∧ entry.source.place home = place

end Ledger

namespace Project

/-- What a turn comes to where nothing fails. -/
inductive Course (project : Project) (carrier : Carrier) (survey : Survey) (progress : Progress) (plan : Plan) :
    Progress -> Prop
  | passed {after : Progress} (site : after.site = progress.site) (landed : after.landed = progress.landed)
    (renewed : ∃ path ∈ progress.landed, path.same plan.source = true) :
    Course project carrier survey progress plan after
  | done {after : Progress} {record : FileRecord} {decision : Decision} {executed : Executed}
    {entries : Ledger} (informed : project.Informed survey progress.site.disk plan record)
    (did : Carrier.Did progress.site.disk plan.source plan.destination decision (.ok executed) entries
      after.site.disk)
    (ledger : after.site.ledger = progress.site.ledger ++ entries)
    (landed : after.landed = landedAfter progress.landed plan decision (.ok executed))
    (listed : ({ plan with decision := decision }, executed.entry) ∈ after.execution.executed)
    (beside : ∀ kept ∈ executed.entry.backup, ∃ number,
      kept = carrier.siblingAt plan.destination "backup" number)
    (gone : after.site.disk.contents (plan.source.place progress.site.disk.home) = none) :
    Course project carrier survey progress plan after

/-- What an execution says of the files it has not come to, brought to a place, or kept a copy of. -/
inductive Origin (project : Project) (d : Disk) (before : List Plan) (progress : Progress)
    (place : Location) (content : ByteArray) : Prop
  | kept (held : d.contents place = some content)
    (unplanned : ∀ plan ∈ before, plan.source.place d.home ≠ place)
    (untouched : ∀ path ∈ progress.landed, path.place d.home ≠ place) :
    Origin project d before progress place content
  | brought (path : Path) (landed : path ∈ progress.landed) (plain : path.Plain)
    (here : path.place d.home = place) (settled : project.Settled path content)
    (outside : ¬ (project.folderOf .staged).Below path) : Origin project d before progress place content
  | backed (kept : progress.site.ledger.Backs d.home place)
    (outside : ∀ path : Path, path.Plain -> path.place d.home = place ->
      ¬ (project.folderOf .staged).Below path) :
    Origin project d before progress place content

/-- What a run may leave to do: to correct the extension of a copy that it kept, or of a file whose imports it
rewrote and that needed no correction before. -/
structure Leftover (project : Project) (stamp : String) (d : Disk) (plan : Plan) : Prop where
  corrects : plan.reason = .extensionFix
  own : (project.run stamp false d).1.ledger.Backs d.home (plan.source.place d.home) ∨
    (project.run stamp false d).1.ledger.Rewrites d.home (plan.source.place d.home) ∧
      ∃ content, (project.relocateAll (project.carrier stamp) (project.survey d) ⟨d, []⟩).site.disk.contents
          (plan.source.place d.home) = some content ∧ project.Settled plan.source content

theorem Origin.onward {project : Project} {d : Disk} {before : List Plan} {progress after : Progress}
    {plan : Plan} {place : Location} {content : ByteArray} (origin : project.Origin d before progress place content)
    (lists : ∀ entry ∈ progress.site.ledger, entry ∈ after.site.ledger)
    (landed : ∀ path ∈ progress.landed, path ∈ after.landed)
    (fresh : ∀ path ∈ after.landed, path ∈ progress.landed ∨ path.place d.home ≠ place)
    (away : (∀ path ∈ progress.landed, path.place d.home ≠ place) -> plan.source.place d.home ≠ place) :
    project.Origin d (before ++ [plan]) after place content := by
  cases origin with
  | kept held unplanned untouched =>
    refine .kept held (fun other inside => ?_) (fun path inside => ?_)
    · rcases List.mem_append.1 inside with earlier | last
      · exact unplanned other earlier
      · rw [List.mem_singleton.1 last]
        exact away untouched
    · exact (fresh path inside).elim (untouched path) id
  | brought path inside plain here settled outside =>
    exact .brought path (landed path inside) plain here settled outside
  | backed kept outside =>
    obtain ⟨entry, inside, kept⟩ := kept
    exact .backed ⟨entry, lists entry inside, kept⟩ outside

theorem run_rewritten (project : Project) (stamp : String) (d : Disk) :
    (project.run stamp false d).2 =
        (project.rewritten (project.carrier stamp) (project.survey d) ⟨d, []⟩).site.disk ∧
      (project.run stamp false d).1.ledger =
        (project.rewritten (project.carrier stamp) (project.survey d) ⟨d, []⟩).site.ledger := by
  simp only [run, Bool.false_eq_true, if_false, Report.build, execute_site, and_self]

theorem untroubled_run (project : Project) (stamp : String) (d : Disk)
    (untroubled : (project.run stamp false d).1.Untroubled) :
    (project.survey d).Clear ∧ (project.execute (project.carrier stamp) (project.survey d) ⟨d, []⟩).1.Quiet ∧
      ∀ step ∈ (project.execute (project.carrier stamp) (project.survey d) ⟨d, []⟩).1.executed,
        step.1.decision ≠ .conflict := by
  obtain ⟨agreed, quiet⟩ := untroubled
  simp only [run, Bool.false_eq_true, if_false, Report.build, Report.conflictsOf, List.map_eq_nil_iff,
    List.filter_eq_nil_iff, decide_eq_true_eq] at agreed quiet
  refine ⟨fun issue known => (quiet issue ?_).1, fun issue known => (quiet issue ?_).2, agreed⟩
  · exact List.mem_append_left _ (List.mem_append_left _ (List.mem_append_left _ known))
  · exact List.mem_append_left _ (List.mem_append_right _ known)

theorem rewriteFile_ledger (progress : Progress) (step : Path × List Edit) (entry : LedgerEntry)
    (known : entry ∈ progress.site.ledger) : entry ∈ (rewriteFile progress step).site.ledger := by
  unfold rewriteFile
  split
  · exact known
  · exact known
  · exact List.mem_append_left _ known

theorem rewriteAll_ledger (steps : List (Path × List Edit)) (progress : Progress) (entry : LedgerEntry)
    (known : entry ∈ progress.site.ledger) : entry ∈ (steps.foldl rewriteFile progress).site.ledger := by
  induction steps generalizing progress with
  | nil => exact known
  | cons step rest ih => exact ih _ (rewriteFile_ledger progress step entry known)

theorem rewriteAll_origin (steps : List (Path × List Edit)) (progress : Progress)
    (regular : progress.site.disk.Regular) (place : Location) (content : ByteArray)
    (held : (steps.foldl rewriteFile progress).site.disk.contents place = some content) :
    progress.site.disk.contents place = some content ∨
      (steps.foldl rewriteFile progress).site.ledger.Rewrites progress.site.disk.home place ∧
        ∃ earlier, progress.site.disk.contents place = some earlier := by
  induction steps generalizing progress with
  | nil => exact .inl held
  | cons step rest ih =>
    rw [List.foldl_cons] at held ⊢
    have later := rewriteFile_later progress regular step
    have onward := ih (rewriteFile progress step) later.regular held
    rw [later.home] at onward
    rcases rewriteFile_cases progress regular step with ⟨site, -⟩ | ⟨text, rewrote⟩
    · rw [site] at onward
      exact onward
    · rw [rewrote.written.held, Function.update_apply] at onward
      split at onward
      next here =>
        subst here
        obtain ⟨time, ledger⟩ := rewrote.ledger
        refine .inr ⟨⟨⟨.rewriteImports, step.1, none, none, time⟩, ?_, rfl, rfl⟩, _, rewrote.before⟩
        refine rewriteAll_ledger rest _ _ ?_
        rw [ledger]
        exact List.mem_append_right _ (List.mem_singleton_self _)
      · exact onward

section

variable {project : Project} (orderly : project.Orderly) {d : Disk} (regular : d.Regular)

include orderly regular

theorem executePlan_course (carrier : Carrier) (progress : Progress) (pending : List Plan) (plan : Plan)
    (underway : Underway d (plan :: pending) progress) (member : plan ∈ (project.survey d).plans)
    (quiet : (project.executePlan carrier (project.survey d) progress plan).execution.Quiet) :
    project.Course carrier (project.survey d) progress plan
      (project.executePlan carrier (project.survey d) progress plan) := by
  have handled := project.executePlan_handled carrier (project.survey d) progress plan
  generalize project.executePlan carrier (project.survey d) progress plan = after at handled quiet ⊢
  have regular' := underway.later.regular
  cases handled with
  | unknown known _ =>
    -- Every plan has a record.
    obtain ⟨record, -, -, first, -⟩ := mem_plans orderly regular plan member
    have learned := project.learned_knowledge (project.survey d) progress plan
    rw [known] at learned
    cases learned with
    | unknown unlisted => cases first.symm.trans unlisted
  | outdated known idle =>
    refine .passed idle.site idle.landed ?_
    have learned := project.learned_knowledge (project.survey d) progress plan
    rw [known] at learned
    cases learned with
    | outdated _ landed => exact landed
  | failed kind idle =>
    refine absurd kind (quiet _ ?_)
    rw [idle.issues]
    exact List.mem_append_right _ (List.mem_singleton_self _)
  | @carried record decision outcome known _ carried =>
    have whole : issuesOf outcome = [] := by
      refine List.eq_nil_iff_forall_not_mem.2 fun issue left =>
        quiet issue ?_ (kind_issuesOf outcome issue left)
      rw [carried.issues]
      exact List.mem_append_right _ left
    cases outcome with
    | error error => cases whole
    | ok executed =>
      have complete : executed.incomplete = none := by simpa [issuesOf] using whole
      have informed := informed_of_known orderly regular progress pending plan underway member record known
      have went := went_of_carried orderly regular progress pending plan underway member known carried
      obtain ⟨entries, ledger, did⟩ := went.did regular'
      refine .done informed did ledger carried.landed ?_ went.kept (went.gone regular' complete)
      rw [carried.executed]
      exact List.mem_append_right _ (List.mem_singleton_self _)

theorem Informed.settled (steady : project.layout.Steady) {progress : Disk} (regular' : progress.Regular)
    {plan : Plan} {record : FileRecord} (informed : project.Informed (project.survey d) progress plan record)
    (content : ByteArray) (held : progress.contents (plan.source.place progress.home) = some content) :
    project.Settled plan.destination content ∧ ¬ (project.folderOf .staged).Below plan.destination := by
  obtain ⟨⟨old, inside, own, standing⟩, ⟨text, read⟩, destination, known, same⟩ := informed
  obtain ⟨-, content', held', -, verdict, -⟩ := readRecord_file progress regular' _ _ _ read
  obtain ⟨-, own', -⟩ := readRecord_tells progress _ _ _ read
  have below := below_of_record orderly regular old inside
  simp only at own' verdict
  rw [held] at held'
  cases held'
  rw [standing, own, ← own'] at below
  rw [← own'] at verdict
  obtain ⟨settled, outside⟩ := destinationOf_settled orderly steady record content verdict below destination
    plan.reason known
  have spelt := eq_of_beq same
  refine ⟨settled.congr spelt.symm, fun ⟨names, filled, within⟩ => outside ⟨names, filled, ?_⟩⟩
  rw [spelt, within]

theorem Course.origin (steady : project.layout.Steady) {progress after : Progress} {before pending : List Plan}
    {plan : Plan} (underway : Underway d (plan :: pending) progress) (member : plan ∈ (project.survey d).plans)
    {carrier : Carrier} (stamp : Path.separator ∉ carrier.stamp.toList)
    (course : project.Course carrier (project.survey d) progress plan after)
    (agreed : ∀ step ∈ after.execution.executed, step.1.decision ≠ .conflict)
    (sofar : ∀ place content, progress.site.disk.contents place = some content ->
      project.Origin d before progress place content) (place : Location) (content : ByteArray)
    (held : after.site.disk.contents place = some content) :
    project.Origin d (before ++ [plan]) after place content := by
  cases course with
  | passed site landed renewed =>
    rw [site] at held
    refine (sofar place content held).onward (fun _ => by rw [site]; exact id)
      (fun _ => by rw [landed]; exact id) (fun _ inside => .inl (by rwa [landed] at inside)) ?_
    -- The source took new content, and thus is not as it was.
    rintro untouched rfl
    obtain ⟨path, inside, same⟩ := renewed
    exact untouched path inside (Path.place_of_same d.home path plan.source same)
  | @done record decision executed entries informed did ledger landed listed beside gone =>
    have regular' := underway.later.regular
    have home := underway.later.home
    obtain ⟨text, read⟩ := informed.fresh
    have from' := (readRecord_file _ regular' _ _ _ read).1
    rcases did.origin from' (agreed _ listed) place content held with
      ⟨held', missed⟩ | ⟨lands', rfl, own⟩ | ⟨kept, inside, here⟩
    · -- It was there before, neither at the source nor where the plan landed.
      refine (sofar place content held').onward (fun entry known => ?_) (fun path known => ?_)
        (fun path inside => ?_) ?_
      · rw [ledger]
        exact List.mem_append_left _ known
      · rw [landed, landedAfter]
        split
        · exact List.mem_append_left _ known
        · exact known
      · rw [landed, landedAfter] at inside
        split at inside
        next lands' =>
          rcases List.mem_append.1 inside with earlier | last
          · exact .inl earlier
          · rw [List.mem_singleton.1 last, ← home]
            exact .inr (Ne.symm (missed lands'))
        · exact .inl inside
      · rintro - rfl
        rw [← home, gone] at held
        cases held
    · -- The plan brought it.
      obtain ⟨settled, outside⟩ := informed.settled orderly regular steady regular' content own
      refine .brought plan.destination ?_ (landed_plain orderly regular _ regular' plan member did lands')
        (by rw [home]) settled outside
      rw [landed, landedAfter, if_pos lands']
      exact List.mem_append_right _ (List.mem_singleton_self _)
    · refine .backed ⟨executed.entry, ?_, kept, inside, by rw [← home, here]⟩ fun path plain' own => ?_
      · rw [ledger, did.entries_eq]
        exact List.mem_append_right _ (List.mem_singleton_self _)
      · -- The copy hangs beside a destination, and no destination is staged.
        obtain ⟨source, held''⟩ := from'.contents
        obtain ⟨-, outside⟩ := informed.settled orderly regular steady regular' source held''
        obtain ⟨lands', stood⟩ := did.backed_of_kept kept inside
        obtain ⟨number, rfl⟩ := beside kept inside
        exact Carrier.not_below_of_beside carrier stamp "backup" (by simp) progress.site.disk.home
          (landed_plain orderly regular _ regular' plan member did lands') (stood.filled regular') outside
          plain' number (by rw [here, ← own, home])

theorem relocated_origin (steady : project.layout.Steady) (carrier : Carrier)
    (stamp : Path.separator ∉ carrier.stamp.toList)
    (quiet : (project.execute carrier (project.survey d) ⟨d, []⟩).1.Quiet)
    (agreed : ∀ step ∈ (project.execute carrier (project.survey d) ⟨d, []⟩).1.executed,
      step.1.decision ≠ .conflict) (place : Location) (content : ByteArray)
    (held : (project.relocateAll carrier (project.survey d) ⟨d, []⟩).site.disk.contents place = some content) :
    project.Origin d (project.survey d).plans (project.relocateAll carrier (project.survey d) ⟨d, []⟩)
      place content := by
  have prepared := prepared_ready project d regular
  have run := reached_induction orderly regular carrier
    (fun before progress => ∀ place content, progress.site.disk.contents place = some content ->
      project.Origin d before progress place content)
    (by
      intro place content held
      rw [prepared.unchanged.held] at held
      refine .kept held (fun plan impossible => (nomatch impossible)) ?_
      rw [prepared.landed]
      exact fun path impossible => (nomatch impossible))
    (by
      intro before plan pending progress after split here there underway _ sofar
      have member : plan ∈ (project.survey d).plans := by simp [split]
      have split' : (project.survey d).plans = (before ++ [plan]) ++ pending := by simp [split]
      -- Issues and relocations are only added, so that what the whole run lacks each of its turns lacks.
      have quiet' : after.execution.Quiet := by
        rw [there]
        exact fun issue known => quiet issue (execute_issues project carrier d _ pending split' issue known)
      have agreed' : ∀ step ∈ after.execution.executed, step.1.decision ≠ .conflict := by
        intro step done
        rw [there] at done
        refine agreed step ?_
        rw [execute_execution, rewritten_executed, relocateAll_eq, split']
        exact project.reached_executed carrier d _ pending step done
      rw [reached_concat, ← here] at there
      subst there
      exact (executePlan_course orderly regular carrier progress pending plan underway member quiet').origin
        orderly regular steady underway member stamp agreed' sofar)
    (project.survey d).plans [] (List.append_nil _).symm
  rw [relocateAll_eq] at held ⊢
  exact run.2 place content held

theorem relocated_settled (steady : project.layout.Steady) (carrier : Carrier)
    (stamp : Path.separator ∉ carrier.stamp.toList) (clear : (project.survey d).Clear)
    (quiet : (project.execute carrier (project.survey d) ⟨d, []⟩).1.Quiet)
    (agreed : ∀ step ∈ (project.execute carrier (project.survey d) ⟨d, []⟩).1.executed,
      step.1.decision ≠ .conflict) {after : Disk} (later : d.Later after) (record : FileRecord)
    (member : record ∈ (project.survey after).records) (content : ByteArray)
    (held : (project.relocateAll carrier (project.survey d) ⟨d, []⟩).site.disk.contents
      (record.path.place d.home) = some content) :
    record.standing = .inPlace ∧
      ((project.relocateAll carrier (project.survey d) ⟨d, []⟩).site.ledger.Backs d.home
          (record.path.place d.home) ∨ project.Settled record.path content) := by
  have below := below_of_record orderly later.regular record member
  have placed : ¬ (project.folderOf .staged).Below record.path -> record.standing = .inPlace := by
    intro outside
    cases standing : record.standing with
    | inPlace => rfl
    | staged =>
      rw [standing] at below
      exact absurd below outside
  have plain := (folderOf_plain orderly _).below below
  cases relocated_origin orderly regular steady carrier stamp quiet agreed _ content held with
  | backed kept outside => exact ⟨placed (outside _ plain rfl), .inl kept⟩
  | brought path _ plain' here settled outside =>
    have spelt := eq_of_beq (plain'.same_of_place plain d.home here)
    refine ⟨placed fun ⟨names, filled, within⟩ => outside ⟨names, filled, spelt.trans within⟩, .inr ?_⟩
    exact settled.congr spelt.symm
  | kept held' unplanned _ =>
    obtain ⟨first, inside, own, standing, verdict⟩ :=
      record_earlier orderly regular later clear record member content held'
    rw [← own] at verdict
    rw [← own, ← standing] at below ⊢
    by_contra open'
    -- A file that does not settle where it is would have been planned for.
    have unsettled : first.standing = .staged ∨ ¬ project.Settled first.path content := by
      cases known : first.standing with
      | staged => exact .inl rfl
      | inPlace => exact .inr fun settled => open' ⟨known, .inr settled⟩
    obtain ⟨destination, reason, due, differs⟩ :=
      destinationOf_unsettled orderly steady first content verdict below unsettled
    obtain ⟨plan, planned, source⟩ := plan_of_record clear first inside destination reason due differs
    exact unplanned plan planned (by rw [source, own])

theorem run_later (stamp : String) : d.Later (project.run stamp false d).2 := by
  have relocated := relocated_later orderly regular (project.carrier stamp)
  rw [(project.run_rewritten stamp d).1, rewritten]
  exact relocated.trans (rewriteAll_later _ _ relocated.regular)

theorem leftover_of_resurvey (steady : project.layout.Steady) (stamp : String)
    (whole : Path.separator ∉ stamp.toList) (untroubled : (project.run stamp false d).1.Untroubled)
    (plan : Plan) (member : plan ∈ (project.survey (project.run stamp false d).2).plans) :
    project.Leftover stamp d plan := by
  obtain ⟨clear, quiet, agreed⟩ := project.untroubled_run stamp d untroubled
  have relocated := relocated_later orderly regular (project.carrier stamp)
  have later := run_later orderly regular stamp
  obtain ⟨record, inside, source, -, known, -⟩ := mem_plans orderly later.regular plan member
  obtain ⟨tells, -⟩ := mem_records orderly later.regular record inside
  obtain ⟨-, content, held, -, verdict⟩ := tells.file later.regular
  have settled := relocated_settled orderly regular steady (project.carrier stamp) whole clear quiet agreed
    later record inside
  rw [later.home] at held
  -- What is in place is planned for only where its extension is to change.
  have due : record.standing = .inPlace -> plan.reason = .extensionFix ∧
      ∀ earlier, project.Settled record.path earlier -> content ≠ earlier := by
    intro standing
    simp only [destinationOf, standing, Option.ite_none_right_eq_some, Option.some.injEq, Prod.mk.injEq]
      at known
    refine ⟨known.2.2.symm, ?_⟩
    rintro earlier stays rfl
    rw [Settled, ← verdict, known.1] at stays
    cases stays
  obtain ⟨disk, ledger⟩ := project.run_rewritten stamp d
  rw [disk, rewritten] at held
  rw [rewritten] at ledger
  generalize project.editsAfter (project.survey d) _ = steps at held ledger
  have backed : (project.relocateAll (project.carrier stamp) (project.survey d) ⟨d, []⟩).site.ledger.Backs
      d.home (record.path.place d.home) ->
        (project.run stamp false d).1.ledger.Backs d.home (plan.source.place d.home) := by
    rintro ⟨entry, listed, kept⟩
    rw [ledger, source]
    exact ⟨entry, rewriteAll_ledger steps _ entry listed, kept⟩
  rcases rewriteAll_origin steps _ relocated.regular _ content held with same | ⟨rewrites, earlier, held'⟩
  · obtain ⟨standing, kept | stays⟩ := settled content same
    · exact ⟨(due standing).1, .inl (backed kept)⟩
    · exact absurd rfl ((due standing).2 content stays)
  · obtain ⟨standing, kept | stays⟩ := settled earlier held'
    · exact ⟨(due standing).1, .inl (backed kept)⟩
    · rw [relocated.home, ← ledger, ← source] at rewrites
      rw [← source] at held' stays
      exact ⟨(due standing).1, .inr ⟨rewrites, earlier, held', stays⟩⟩

end

def usual (root : Path) : Project := ⟨root, .usual, .usual⟩

theorem usual_orderly (root : Path) (plain : root.Plain) : (usual root).Orderly := orderly_usual root _ plain

/-- In a project that is laid out as usual, a run that nothing troubled leaves nothing to do but to correct
the extensions of copies that it kept and of files whose imports it rewrote. -/
theorem usual_resurvey (root : Path) (plain : root.Plain) (d : Disk) (regular : d.Regular) (stamp : String)
    (whole : Path.separator ∉ stamp.toList) (untroubled : ((usual root).run stamp false d).1.Untroubled) :
    ∀ plan ∈ ((usual root).survey ((usual root).run stamp false d).2).plans,
      (usual root).Leftover stamp d plan :=
  leftover_of_resurvey (usual_orderly root plain) regular Layout.steady_usual stamp whole untroubled

example : (usual ⟨"/project"⟩).Settled ⟨"/project/src/utils/app.ts"⟩ "import './_lib'".toUTF8 ∧
    ¬ (usual ⟨"/project"⟩).Settled ⟨"/project/src/utils/app.ts"⟩
      (rewriteImports [⟨"./_lib", "../../downloads/jsx(/_lib"⟩] "import './_lib'").toUTF8 := by
  decide +kernel

def superseding : Disk :=
  [(Path.mk "src/services/authService.ts", "<Card>", Instant.mk 1 0),
    (⟨"downloads/auth_service.ts"⟩, "let a", ⟨2, 0⟩)].foldl
    (fun d file => d.settle file.1 (.file file.2.1.toUTF8 Disk.newFileMode file.2.2)) (.bare ["project"] ⟨3, 0⟩)

theorem superseding_regular : superseding.Regular := by decide +kernel

def superseded : Plan where
  source := ⟨"/project/src/services/authService.backup.stamp.ts"⟩
  destination := ⟨"/project/src/services/authService.backup.stamp.tsx"⟩
  decision := .move
  reason := .extensionFix

theorem superseding_resurveyed :
    ((usual ⟨"/project"⟩).run "stamp" false superseding).1.Untroubled ∧
      superseded ∈
        ((usual ⟨"/project"⟩).survey ((usual ⟨"/project"⟩).run "stamp" false superseding).2).plans := by
  have orderly := usual_orderly ⟨"/project"⟩ (by decide)
  have later := run_later orderly superseding_regular "stamp"
  have facts : ((usual ⟨"/project"⟩).run "stamp" false superseding).1.Untroubled ∧
      ((usual ⟨"/project"⟩).run "stamp" false superseding).2.isFolder ⟨"/project/src"⟩ = true ∧
      ((usual ⟨"/project"⟩).run "stamp" false superseding).2.sees .usual ⟨"/project/src"⟩
        ["services", "authService.backup.stamp.ts"] = true ∧
      ((readRecord ((usual ⟨"/project"⟩).run "stamp" false superseding).2 superseded.source
          .inPlace).toOption.bind fun reading =>
        ((usual ⟨"/project"⟩).finding ((usual ⟨"/project"⟩).run "stamp" false superseding).2
          reading.record).plan) = some superseded := by
    decide +kernel
  generalize (usual ⟨"/project"⟩).run "stamp" false superseding = result at later facts ⊢
  obtain ⟨untroubled, solid, seen, found⟩ := facts
  refine ⟨untroubled, ?_⟩
  -- The directories of the layout are many, so the copy is looked for by its names only.
  have source : (usual ⟨"/project"⟩).folderOf .inPlace = ⟨"/project/src"⟩ := by decide +kernel
  obtain ⟨reading, read, planned⟩ := Option.bind_eq_some_iff.1 found
  refine plan_of_candidate _ _ _ .inPlace reading _ ?_ (Except.eq_ok_of_toOption read) planned
  refine (mem_candidates_iff _ _ _ _).2 ⟨?_, fun _ => by decide +kernel⟩
  refine (Disk.mem_files_iff later.regular _ _ _ (folderOf_plain orderly _)).2 ?_
  rw [source]
  exact ⟨solid, _, by decide +kernel, seen⟩

theorem not_usual_resurvey_nothing :
    ¬ ∀ (root : Path) (d : Disk) (stamp : String), root.Plain -> d.Regular -> Path.separator ∉ stamp.toList ->
      ((usual root).run stamp false d).1.Untroubled ->
      ((usual root).survey ((usual root).run stamp false d).2).plans = [] := by
  intro nothing
  obtain ⟨untroubled, planned⟩ := superseding_resurveyed
  rw [nothing ⟨"/project"⟩ superseding "stamp" (by decide) superseding_regular (by decide) untroubled]
    at planned
  cases planned

theorem superseding_leftover :
    (Path.mk "/project").Plain ∧ superseding.Regular ∧ Path.separator ∉ "stamp".toList ∧
      ((usual ⟨"/project"⟩).run "stamp" false superseding).1.Untroubled ∧
      superseded ∈
        ((usual ⟨"/project"⟩).survey ((usual ⟨"/project"⟩).run "stamp" false superseding).2).plans ∧
      (usual ⟨"/project"⟩).Leftover "stamp" superseding superseded := by
  obtain ⟨untroubled, planned⟩ := superseding_resurveyed
  have plain : (Path.mk "/project").Plain := by decide
  refine ⟨plain, superseding_regular, by decide, untroubled, planned, ?_⟩
  exact usual_resurvey ⟨"/project"⟩ plain superseding superseding_regular "stamp" (by decide) untroubled
    superseded planned

end Project

end Stowage

import Stowage.Proofs.Execution.Following
import Stowage.Proofs.Relocation.Labels
import Stowage.Run

set_option autoImplicit false

namespace Stowage

def Location.Aloof (first second : Location) : Prop := ¬ first <+: second ∧ ¬ second <+: first

instance (first second : Location) : Decidable (first.Aloof second) :=
  inferInstanceAs (Decidable (¬ first <+: second ∧ ¬ second <+: first))

theorem Location.Aloof.ne {first second : Location} (aloof : first.Aloof second) : first ≠ second :=
  fun same => aloof.1 (same ▸ List.prefix_rfl)

namespace Disk

/-- What was found at a destination is still there, and where nothing was found nothing came to be. -/
structure Undisturbed (d now : Disk) (destination : Path) : Prop where
  file : ∀ node, d.file? (destination.place d.home) = some node ->
    now.file? (destination.place d.home) = some node
  folder : d.node? destination.names = none -> ¬ now.FolderAt destination.names
  free : destination.Plain -> d.node? destination.names = none -> now.file? destination.names = none

theorem Undisturbed.decision {d now : Disk} (regular : d.Regular) (later : d.Later now) {destination : Path}
    (cases : destination.Plain ∨ destination.Climbs) (solid : d.isFolder destination = false)
    (undisturbed : d.Undisturbed now destination) {record : FileRecord} {decision : Decision}
    (decided : Decision.of d record destination = .ok decision) :
    Decision.of now record destination = .ok decision ∨
      ∃ problem, Decision.of now record destination = .error problem := by
  cases found : d.find destination with
  | ok reached =>
    obtain ⟨place, node⟩ := reached
    obtain ⟨rfl, held⟩ := d.find_place regular destination place node found
    have filed : node.isFile = true := by
      cases node with
      | file => rfl
      | folder => simp [isFolder, found, Node.isFolder] at solid
      | link target => exact absurd held (regular.linkless _ target)
    have own := (file?_eq_some_iff d _ node).2 ⟨held, filed⟩
    have found' := d.find_later now regular later destination _ node found filed
      ((undisturbed.file node own).trans own.symm)
    -- A file that is found again is asked about and read with the same answers.
    have stat : now.stat destination = d.stat destination := by simp [Disk.stat, found, found']
    have read : now.read destination = d.read destination := by
      simp [Disk.read, found, found', Disk.allows, later.privileged]
    left
    rw [← decided, Decision.of, Decision.of, stat]
    unfold Decision.sameContent
    rw [read]
  | error problem =>
    have missing : d.stat destination = .error problem := by simp [Disk.stat, found]
    obtain ⟨rfl, rfl⟩ : problem = .notFound ∧ decision = .move := by
      unfold Decision.of at decided
      rw [missing] at decided
      cases problem <;> cases decided
      exact ⟨rfl, rfl⟩
    have none := d.node?_of_notFound regular destination cases missing
    cases found' : now.find destination with
    | error problem' =>
      have asked : now.stat destination = .error problem' := by simp [Disk.stat, found']
      unfold Decision.of
      rw [asked]
      cases problem' <;> simp
    | ok reached =>
      -- Finding something would need a directory or a file that came to be.
      exfalso
      obtain ⟨place, node⟩ := reached
      obtain ⟨level, above⟩ := now.names_of_find later.regular destination place node found'
      rcases cases with plain | climbs
      · cases node with
        | folder mode modified => exact undisturbed.folder none ⟨mode, modified, level plain⟩
        | file content mode modified =>
          have filed := (file?_eq_some_iff now _ _).2 ⟨level plain, rfl⟩
          rw [undisturbed.free plain none] at filed
          cases filed
        | link target => exact later.regular.linkless _ target (level plain)
      · exact undisturbed.folder none (above climbs)

end Disk

namespace Project

/-- No plan's destination is a directory, or in the way of another plan, of a required directory or of what a
run sets aside. -/
structure Independent (project : Project) (carrier : Carrier) (d : Disk) : Prop where
  solid : ∀ plan ∈ (project.survey d).plans, d.isFolder plan.destination = false
  aloof : ∀ plan ∈ (project.survey d).plans, ∀ other ∈ (project.survey d).plans, plan ≠ other ->
    Location.Aloof (plan.destination.place d.home) (other.source.place d.home) ∧
      Location.Aloof (plan.destination.place d.home) (other.destination.place d.home)
  unneeded : ∀ plan ∈ (project.survey d).plans, ∀ dir ∈ project.layout.requiredDirs,
    ¬ plan.destination.place d.home <+: (project.root.join dir).place d.home
  unlabelled : ∀ plan ∈ (project.survey d).plans, plan.destination.Plain -> ∀ other ∈ (project.survey d).plans,
    plan.destination.place d.home ∉ carrier.siblingPlaces d.home other.destination

def Failed (progress after : Progress) : Prop :=
  after.execution.executed = progress.execution.executed ∧
    ∃ issue : Issue, issue.kind = .executionError ∧
      after.execution.issues = progress.execution.issues ++ [issue]

/-- A turn that carried a plan out as it stands, or failed. -/
def Answered (progress : Progress) (plan : Plan) (after : Progress) : Prop :=
  (∃ entry, after.execution.executed = progress.execution.executed ++ [(plan, entry)]) ∨ Failed progress after

/-- A plan that was not carried out, and left an issue when its turn came. -/
structure Fails (project : Project) (carrier : Carrier) (d : Disk) (plan : Plan) : Prop where
  unexecuted : ∀ step ∈ (project.execute carrier (project.survey d) ⟨d, []⟩).1.executed,
    step.1.source.same plan.source = false
  told : ∃ before pending issue, (project.survey d).plans = before ++ plan :: pending ∧
    issue.kind = .executionError ∧
    (project.reached carrier d (before ++ [plan])).execution.issues =
      (project.reached carrier d before).execution.issues ++ [issue] ∧
    issue ∈ (project.execute carrier (project.survey d) ⟨d, []⟩).1.issues

theorem run_dry_relocations (project : Project) (stamp : String) (d : Disk) :
    (project.run stamp true d).1.relocations = (project.survey d).plans := rfl

theorem run_relocations (project : Project) (stamp : String) (d : Disk) :
    (project.run stamp false d).1.relocations =
      (project.execute (project.carrier stamp) (project.survey d) ⟨d, []⟩).1.executed.map Prod.fst := by
  simp only [run, Bool.false_eq_true, if_false, Report.build, Report.relocationsOf]

theorem carryOut_answered (carrier : Carrier) (progress : Progress) (plan : Plan) (record : FileRecord)
    (decided : Decision.of progress.site.disk record plan.destination = .ok plan.decision ∨
      ∃ problem, Decision.of progress.site.disk record plan.destination = .error problem) :
    Answered progress plan (carryOut carrier progress plan record) := by
  rcases carryOut_cases carrier progress plan record with
    ⟨-, issue, -, kind, idle⟩ | ⟨decision, outcome, due, carried⟩
  · exact .inr ⟨idle.executed, issue, kind, idle.issues⟩
  · have same : decision = plan.decision := by
      rcases decided with stands | ⟨problem, failed⟩
      · exact Except.ok.inj (due.symm.trans stands)
      · cases due.symm.trans failed
    subst same
    cases outcome with
    | error error => exact .inr ⟨carried.executed, error.issue, rfl, carried.issues⟩
    | ok done => exact .inl ⟨done.entry, carried.executed⟩

section

variable {project : Project} (orderly : project.Orderly) {d : Disk} (regular : d.Regular)

include orderly regular

theorem executePlan_grows (carrier : Carrier) (progress : Progress) (pending : List Plan) (plan : Plan)
    (underway : Underway d (plan :: pending) progress) (member : plan ∈ (project.survey d).plans) :
    progress.site.disk.Grows (project.executePlan carrier (project.survey d) progress plan).site.disk
      {place | place <+: plan.destination.names}
      (insert (plan.destination.place d.home) (carrier.siblingPlaces d.home plan.destination)) := by
  cases project.executePlan_handled carrier (project.survey d) progress plan with
  | unknown _ idle | outdated _ idle | failed _ idle =>
    rw [idle.site]
    exact .refl _ _ _
  | carried known _ carried =>
    obtain ⟨-, -, cases, -⟩ := plan_shape orderly regular plan member
    have grows := (went_of_carried orderly regular progress pending plan underway member known carried).grows
      underway.later.regular cases
    rwa [underway.later.home] at grows

theorem plan_decided (plan : Plan) (member : plan ∈ (project.survey d).plans) :
    ∃ record, (project.survey d).record? plan.source = some record ∧
      Decision.of d record plan.destination = .ok plan.decision := by
  obtain ⟨first, recorded, own, looked, -⟩ := mem_plans orderly regular plan member
  rw [survey_plans] at member
  obtain ⟨record, inside, planned⟩ := List.mem_filterMap.1 member
  obtain ⟨source, -⟩ := finding_plan record plan planned
  have same : first = record := List.inj_on_of_nodup_map (nodup_records orderly regular) recorded inside
    (by rw [← own, source])
  refine ⟨first, looked, ?_⟩
  rw [same]
  unfold finding at planned
  split at planned
  · cases planned
  · simp only at planned
    split at planned
    · cases planned
    · split at planned
      next decided =>
        cases planned
        exact decided
      · cases planned

theorem not_mem_pending {before pending : List Plan} {plan : Plan}
    (split : (project.survey d).plans = before ++ plan :: pending) :
    plan ∉ before ∧ plan ∉ pending := by
  have distinct := List.Nodup.of_map _ (nodup_plans orderly regular)
  rw [split, List.nodup_append', List.nodup_cons] at distinct
  exact ⟨fun inside => distinct.2.2 inside List.mem_cons_self, distinct.2.1.1⟩

section

variable (inner : ∀ dir ∈ project.layout.requiredDirs, dir.Inner) {carrier : Carrier}
  (independent : project.Independent carrier d)

omit regular in
include inner in
theorem ready_grows (regular : d.Regular) : d.Grows (project.ready ⟨d, []⟩).site.disk
    {place | ∃ dir ∈ project.layout.requiredDirs, place <+: (project.root.join dir).place d.home} ∅ := by
  have all : ∀ (dirs : List Path) (progress : Progress), (∀ dir ∈ dirs, dir ∈ project.layout.requiredDirs) ->
      Prepared d progress ->
      d.Grows progress.site.disk
        {place | ∃ dir ∈ project.layout.requiredDirs, place <+: (project.root.join dir).place d.home} ∅ ->
      d.Grows (dirs.foldl project.makeRequired progress).site.disk
        {place | ∃ dir ∈ project.layout.requiredDirs, place <+: (project.root.join dir).place d.home} ∅ := by
    intro dirs
    induction dirs with
    | nil => exact fun _ _ _ grows => grows
    | cons dir rest ih =>
      intro progress within prepared grows
      have required := within dir List.mem_cons_self
      refine ih _ (fun other inside => within other (List.mem_cons_of_mem _ inside))
        (prepared.makeRequired project d progress dir) ?_
      have made := progress.site.createDir_grows prepared.unchanged.later.regular (project.root.join dir)
        (orderly.root.join_plain (inner dir required))
      rw [prepared.unchanged.later.home] at made
      have onward := grows.trans (made.more (fun place above => ⟨dir, required, above⟩) subset_rfl)
      unfold makeRequired
      generalize progress.site.createDir (project.root.join dir) = outcome at onward ⊢
      obtain ⟨result, site⟩ := outcome
      cases result with
      | error error => exact onward
      | ok made => cases made <;> exact onward
  exact all _ _ (fun _ inside => inside)
    ⟨.refl regular, fun _ impossible => (nomatch impossible), rfl, rfl, rfl⟩ (.refl _ _ _)

include independent

include inner in
theorem undisturbed_ready (plan : Plan) (member : plan ∈ (project.survey d).plans) :
    d.Undisturbed (project.ready ⟨d, []⟩).site.disk plan.destination := by
  have prepared := prepared_ready project d regular
  have grows := ready_grows orderly inner regular
  obtain ⟨-, -, cases, -⟩ := plan_shape orderly regular plan member
  refine ⟨fun node held => (prepared.unchanged.kept _ (by simp)).trans held, fun none found => ?_,
    fun plain none => ?_⟩
  · rcases grows.folder _ found with ⟨mode, modified, held⟩ | ⟨dir, required, within⟩
    · rw [none] at held
      cases held
    · exact independent.unneeded plan member dir required
        ((Path.place_prefix_names cases d.home).trans within)
  · rw [prepared.unchanged.kept _ (by simp), Disk.file?, none]
    rfl

theorem undisturbed_turn (progress after : Progress) (pending : List Plan) (plan other : Plan)
    (underway : Underway d (plan :: pending) progress) (member : plan ∈ (project.survey d).plans)
    (member' : other ∈ (project.survey d).plans) (differs : other ≠ plan) (turn : Turn progress plan after)
    (grows : progress.site.disk.Grows after.site.disk {place | place <+: plan.destination.names}
      (insert (plan.destination.place d.home) (carrier.siblingPlaces d.home plan.destination)))
    (undisturbed : d.Undisturbed progress.site.disk other.destination) :
    d.Undisturbed after.site.disk other.destination := by
  obtain ⟨-, -, cases, -⟩ := plan_shape orderly regular plan member
  obtain ⟨-, -, cases', -⟩ := plan_shape orderly regular other member'
  obtain ⟨fromSource, fromDestination⟩ := independent.aloof other member' plan member differs
  -- The three parts of being undisturbed: the file there, the directories above it, and the freedom of the place.
  refine ⟨fun node held => ?_, fun none found => ?_, fun plain none => ?_⟩
  · have held' := undisturbed.file node held
    cases turn with
    | idle site =>
      rw [site]
      exact held'
    | acted _ _ _ did =>
      rw [← underway.later.home] at held' fromSource fromDestination ⊢
      refine did.kept _ node held' ?_ fun _ _ => ?_
      · exact fromSource.ne
      · exact fromDestination.ne
  · rcases grows.folder _ found with earlier | within
    · exact undisturbed.folder none earlier
    · -- Both places would lie on the way down to the destination that the directory was made for.
      have above := (Path.place_prefix_names cases' d.home).trans within
      rcases List.prefix_or_prefix_of_prefix above (Path.place_prefix_names cases d.home) with nested | nested
      · exact fromDestination.1 nested
      · exact fromDestination.2 nested
  · by_contra filled
    rcases grows.file _ (Option.isSome_iff_ne_none.2 filled) with earlier | here | beside
    · rw [undisturbed.free plain none] at earlier
      cases earlier
    · rw [plain.names d.home] at here
      exact fromDestination.ne here
    · rw [plain.names d.home] at beside
      exact independent.unlabelled other member' plain plan member beside

include inner

theorem answered (before pending : List Plan) (plan : Plan)
    (split : (project.survey d).plans = before ++ plan :: pending) :
    Answered (project.reached carrier d before) plan (project.reached carrier d (before ++ [plan])) := by
  have member : plan ∈ (project.survey d).plans := by simp [split]
  obtain ⟨underway, landed, undisturbed⟩ := reached_induction orderly regular carrier
    (fun done progress => (∀ path ∈ progress.landed, ∃ other ∈ done, path = other.destination) ∧
      ∀ other ∈ (project.survey d).plans, other ∉ done ->
        d.Undisturbed progress.site.disk other.destination)
    (by
      refine ⟨fun path inside => ?_, fun other member _ =>
        undisturbed_ready orderly regular inner independent other member⟩
      rw [(prepared_ready project d regular).landed] at inside
      cases inside)
    (by
      intro done next later progress after split' here there underway turn ⟨landed, undisturbed⟩
      have member : next ∈ (project.survey d).plans := by simp [split']
      constructor
      · intro path inside
        have known : path ∈ progress.landed ∨ path = next.destination := by
          cases turn with
          | idle _ same =>
            rw [same] at inside
            exact .inl inside
          | acted _ _ _ _ _ same =>
            rw [same] at inside
            unfold landedAfter at inside
            split at inside
            · split at inside
              · exact (List.mem_append.1 inside).imp_right List.mem_singleton.1
              · exact .inl inside
            · exact .inl inside
        rcases known with old | new
        · obtain ⟨other, inside, same⟩ := landed path old
          exact ⟨other, List.mem_append_left _ inside, same⟩
        · exact ⟨next, List.mem_append_right _ (List.mem_singleton_self _), new⟩
      · intro other member' outside
        have apart : other ∉ done ∧ other ≠ next := by simpa using outside
        have grows := executePlan_grows orderly regular carrier progress later next underway member
        rw [here, ← reached_concat, ← there, ← here] at grows
        exact undisturbed_turn orderly regular independent progress after later next other underway member
          member' apart.2 turn grows (undisturbed other member' apart.1))
    before (plan :: pending) split
  obtain ⟨record, first, decided⟩ := plan_decided orderly regular plan member
  obtain ⟨-, -, cases, -⟩ := plan_shape orderly regular plan member
  have outside := (not_mem_pending orderly regular split).1
  -- No earlier plan landed at the source, so that what was surveyed is what is known.
  have missed : ¬ (project.reached carrier d before).landed.any (fun path => path.same plan.source) = true := by
    intro found
    obtain ⟨path, inside, same⟩ := List.any_eq_true.1 found
    obtain ⟨other, done, rfl⟩ := landed path inside
    have member' : other ∈ (project.survey d).plans := by
      rw [split]
      exact List.mem_append_left _ done
    have differs : other ≠ plan := by
      rintro rfl
      exact outside done
    exact (independent.aloof other member' plan member differs).1.ne (Path.place_of_same d.home _ _ same)
  have known : project.knowledge (project.survey d) (project.reached carrier d before) plan = .record record := by
    unfold knowledge
    rw [first]
    simp only
    rw [if_neg missed]
  rw [reached_concat, executePlan, known]
  exact carryOut_answered carrier _ plan record
    ((undisturbed plan member outside).decision regular underway.later cases (independent.solid plan member)
      decided)

theorem executed_more (before pending rest : List Plan)
    (split : (project.survey d).plans = before ++ (pending ++ rest)) :
    ∃ more, (project.reached carrier d (before ++ pending)).execution.executed =
        (project.reached carrier d before).execution.executed ++ more ∧
      (more.map Prod.fst).Sublist pending := by
  induction pending using List.reverseRecOn generalizing rest with
  | nil => exact ⟨[], by simp, .slnil⟩
  | append_singleton pending plan ih =>
    rw [List.append_assoc, List.singleton_append] at split
    obtain ⟨more, executed, within⟩ := ih (plan :: rest) split
    rw [← List.append_assoc]
    rcases answered orderly regular inner independent (before ++ pending) rest plan (by simp [split]) with
      ⟨entry, done⟩ | ⟨same, -⟩
    · refine ⟨more ++ [(plan, entry)], by rw [done, executed, List.append_assoc], ?_⟩
      rw [List.map_append]
      exact within.append (List.Sublist.refl _)
    · exact ⟨more, same.trans executed, within.trans (List.sublist_append_left _ _)⟩

theorem fails_of_failed (before pending : List Plan) (plan : Plan)
    (split : (project.survey d).plans = before ++ plan :: pending)
    (failed : Failed (project.reached carrier d before) (project.reached carrier d (before ++ [plan]))) :
    project.Fails carrier d plan := by
  obtain ⟨same, issue, kind, issues⟩ := failed
  have split' : (project.survey d).plans = (before ++ [plan]) ++ pending := by simp [split]
  refine ⟨?_, before, pending, issue, split, kind, issues, ?_⟩
  · obtain ⟨done, executed, within⟩ :=
      executed_more orderly regular inner independent [] before (plan :: pending) split
    obtain ⟨more, executed', within'⟩ := executed_more orderly regular inner independent (before ++ [plan])
      pending [] (by simp [split])
    have start : (project.reached carrier d []).execution.executed = [] :=
      (prepared_ready project d regular).executed
    rw [List.nil_append, start, List.nil_append] at executed
    intro step inside
    rw [execute_execution, rewritten_executed, relocateAll_eq, split', executed', same, executed] at inside
    -- What was executed are plans before and after this one, from other sources.
    have other : step.1 ∈ before ++ pending := by
      rcases List.mem_append.1 inside with earlier | later
      · exact List.mem_append_left _ (within.subset (List.mem_map_of_mem earlier))
      · exact List.mem_append_right _ (within'.subset (List.mem_map_of_mem later))
    have distinct := nodup_plans orderly regular
    rw [split, List.map_append, List.map_cons, List.nodup_middle, List.nodup_cons, ← List.map_append] at distinct
    refine beq_eq_false_iff_ne.2 fun equal => distinct.1 ?_
    exact List.mem_map.2 ⟨step.1, other, equal⟩
  · refine execute_issues project carrier d (before ++ [plan]) pending split' issue ?_
    rw [issues]
    exact List.mem_append_right _ (List.mem_singleton_self _)

end

/-- What a dry run lists is what a run does: each plan is carried out with the decision it was surveyed with,
or fails and leaves an issue, and if none fails the relocations are the same ones in the same order. -/
theorem dry_run_foretells (inner : ∀ dir ∈ project.layout.requiredDirs, dir.Inner) (stamp : String)
    (independent : project.Independent (project.carrier stamp) d) :
    (∀ plan ∈ (project.run stamp true d).1.relocations,
      (∃ entry, (plan, entry) ∈
        (project.execute (project.carrier stamp) (project.survey d) ⟨d, []⟩).1.executed) ∨
      project.Fails (project.carrier stamp) d plan) ∧
    ((∀ plan ∈ (project.run stamp true d).1.relocations, ¬ project.Fails (project.carrier stamp) d plan) ->
      (project.run stamp false d).1.relocations = (project.run stamp true d).1.relocations) := by
  rw [run_dry_relocations, run_relocations, execute_execution, rewritten_executed, relocateAll_eq]
  constructor
  · intro plan member
    obtain ⟨before, pending, split⟩ := List.append_of_mem member
    rcases answered orderly regular inner independent before pending plan split with
      ⟨entry, executed⟩ | failed
    · refine .inl ⟨entry, ?_⟩
      rw [split, ← List.singleton_append, ← List.append_assoc]
      apply reached_executed
      rw [executed]
      exact List.mem_append_right _ (List.mem_singleton_self _)
    · exact .inr (fails_of_failed orderly regular inner independent before pending plan split failed)
  · intro none
    -- With no plan failing, the plans executed so far are the plans turned to so far.
    have all : ∀ before pending, (project.survey d).plans = before ++ pending ->
        (project.reached (project.carrier stamp) d before).execution.executed.map Prod.fst = before := by
      intro before
      induction before using List.reverseRecOn with
      | nil =>
        intro _ _
        exact congrArg (List.map Prod.fst) (prepared_ready project d regular).executed
      | append_singleton before plan ih =>
        intro pending split
        rw [List.append_assoc, List.singleton_append] at split
        rcases answered orderly regular inner independent before pending plan split with
          ⟨entry, executed⟩ | failed
        · rw [executed, List.map_append, ih (plan :: pending) split]
          rfl
        · exact absurd (fails_of_failed orderly regular inner independent before pending plan split failed)
            (none plan (by simp [split]))
    exact all _ [] (List.append_nil _).symm

end

def scattered : Disk where
  tree := .row "" (some (.folder Disk.newFolderMode ⟨1, 0⟩)) (.row "project"
    (some (.folder Disk.newFolderMode ⟨1, 0⟩)) (.row "downloads" (some (.folder Disk.newFolderMode ⟨1, 0⟩))
      (.row "app.ts" (some (.file "let app".toUTF8 Disk.newFileMode ⟨1, 0⟩)) .bare .bare)
      (.row "src" (some (.folder Disk.newFolderMode ⟨1, 0⟩))
        (.row "card.ts" (some (.file "<Card>".toUTF8 Disk.newFileMode ⟨1, 0⟩)) .bare .bare) .bare)) .bare) .bare
  home := ["project"]
  privileged := true
  now := ⟨2, 0⟩

def shelved : Project :=
  ⟨⟨"/project"⟩, { Layout.usual with requiredDirs := [⟨"src/utils"⟩], destinations := [] }, .usual⟩

theorem scattered_foretold :
    shelved.Orderly ∧ scattered.Regular ∧ (∀ dir ∈ shelved.layout.requiredDirs, dir.Inner) ∧
      shelved.Independent (shelved.carrier "stamp") scattered ∧
      (shelved.run "stamp" true scattered).1.relocations.length = 2 ∧
      (shelved.run "stamp" false scattered).1.relocations =
        (shelved.run "stamp" true scattered).1.relocations := by
  have orderly : shelved.Orderly := by decide +kernel
  have regular : scattered.Regular := by decide +kernel
  have inner : ∀ dir ∈ shelved.layout.requiredDirs, dir.Inner := by decide +kernel
  have independent : shelved.Independent (shelved.carrier "stamp") scattered := by
    refine ⟨by decide +kernel, by decide +kernel, by decide +kernel, fun plan member plain other member' => ?_⟩
    refine Carrier.not_mem_siblingPlaces _ (by decide) _ plan.destination other.destination ?_ ?_ ?_
    · revert other
      decide +kernel
    · revert other
      decide +kernel
    · revert plan
      decide +kernel
  have foretold := dry_run_foretells orderly regular inner "stamp" independent
  refine ⟨orderly, regular, inner, independent, by decide +kernel, foretold.2 fun plan member failed => ?_⟩
  have none : (shelved.execute (shelved.carrier "stamp") (shelved.survey scattered)
      ⟨scattered, []⟩).1.issues = [] := by
    decide +kernel
  obtain ⟨-, -, -, issue, -, -, -, told⟩ := failed
  rw [none] at told
  cases told

end Project

end Stowage

import Stowage.Proofs.Execution.Handling
import Stowage.Proofs.Relocation.Deciding
import Stowage.Proofs.Relocation.Outcomes
import Stowage.Proofs.Survey.Sources

set_option autoImplicit false

namespace Stowage

theorem readRecord_later (d after : Disk) (regular : d.Regular) (later : d.Later after) (path : Path)
    (standing : Standing) (reading : Reading) (read : readRecord d path standing = .ok reading)
    (kept : after.file? (path.place d.home) = d.file? (path.place d.home)) :
    readRecord after path standing = .ok reading := by
  have tells := (readRecord_tells d path standing reading read)
  obtain ⟨⟨content, mode, modified, found⟩, -⟩ := tells.1.file regular
  rw [tells.2.1] at found
  have found' := Disk.find_later d after regular later path _ _ found rfl kept
  have stat : after.stat path = d.stat path := by simp [Disk.stat, found, found']
  have bytes : after.read path = d.read path := by
    simp [Disk.read, found, found', Disk.allows, later.privileged]
  unfold readRecord at read ⊢
  rw [stat, bytes]
  exact read

theorem FileRecord.Tells.later {record : FileRecord} {d after : Disk} (regular : d.Regular)
    (later : d.Later after) (tells : record.Tells d)
    (kept : after.file? (record.path.place d.home) = d.file? (record.path.place d.home)) :
    record.Tells after := by
  obtain ⟨text, read⟩ := tells
  exact ⟨text, readRecord_later d after regular later _ _ _ read kept⟩

namespace Project

theorem refresh_some {project : Project} {d : Disk} {surveyed record : FileRecord} {plan : Plan}
    (refreshed : project.refresh d surveyed plan = .ok (some record)) :
    (∃ text, readRecord d surveyed.path surveyed.standing = .ok ⟨record, text⟩) ∧
      ∃ destination reason, destinationOf project.root project.layout record = some (destination, reason) ∧
        destination.same plan.destination = true := by
  unfold refresh at refreshed
  split at refreshed
  · cases refreshed
  next reading read =>
    split at refreshed
    next destination reason known =>
      simp only [Except.ok.injEq, Option.ite_none_right_eq_some, Option.some.injEq] at refreshed
      obtain ⟨same, rfl⟩ := refreshed
      exact ⟨⟨reading.text, read⟩, destination, reason, known, same⟩
    · cases refreshed

inductive Learned (project : Project) (survey : Survey) (progress : Progress) (plan : Plan) : Knowledge -> Prop
  | unknown (unlisted : survey.record? plan.source = none) : Learned project survey progress plan .unknown
  | surveyed {record : FileRecord} (listed : survey.record? plan.source = some record)
    (missed : ∀ path ∈ progress.landed, path.same plan.source = false) :
    Learned project survey progress plan (.record record)
  | renewed {surveyed record : FileRecord} (listed : survey.record? plan.source = some surveyed)
    (landed : ∃ path ∈ progress.landed, path.same plan.source = true)
    (refreshed : project.refresh progress.site.disk surveyed plan = .ok (some record)) :
    Learned project survey progress plan (.record record)
  | outdated {surveyed : FileRecord} (listed : survey.record? plan.source = some surveyed)
    (landed : ∃ path ∈ progress.landed, path.same plan.source = true)
    (refreshed : project.refresh progress.site.disk surveyed plan = .ok none) :
    Learned project survey progress plan .outdated
  | unread {surveyed : FileRecord} {reason : Unread} (listed : survey.record? plan.source = some surveyed)
    (landed : ∃ path ∈ progress.landed, path.same plan.source = true)
    (refreshed : project.refresh progress.site.disk surveyed plan = .error reason) :
    Learned project survey progress plan (.unread reason)

theorem learned_knowledge (project : Project) (survey : Survey) (progress : Progress) (plan : Plan) :
    project.Learned survey progress plan (project.knowledge survey progress plan) := by
  unfold knowledge
  cases listed : survey.record? plan.source with
  | none => exact .unknown listed
  | some surveyed =>
    simp only
    split
    next landed =>
      have landed := List.any_eq_true.1 landed
      cases refreshed : project.refresh progress.site.disk surveyed plan with
      | error reason => exact .unread listed landed refreshed
      | ok renewed =>
        cases renewed with
        | none => exact .outdated listed landed refreshed
        | some record => exact .renewed listed landed refreshed
    next missed => exact .surveyed listed (by simpa using missed)

/-- How far an execution has come whose next plans are `pending`: their sources are as they were
surveyed, or took new content. -/
structure Underway (d : Disk) (pending : List Plan) (progress : Progress) : Prop where
  later : d.Later progress.site.disk
  waiting : ∀ plan ∈ pending, (∃ path ∈ progress.landed, path.same plan.source = true) ∨
    progress.site.disk.file? (plan.source.place d.home) = d.file? (plan.source.place d.home)

section

variable {project : Project} (orderly : project.Orderly) {d : Disk} (regular : d.Regular)

include orderly regular

theorem known_record (progress : Progress) (pending : List Plan) (plan : Plan)
    (underway : Underway d (plan :: pending) progress) (member : plan ∈ (project.survey d).plans)
    (record : FileRecord)
    (known : project.knowledge (project.survey d) progress plan = .record record) :
    record.Tells progress.site.disk ∧ record.path = plan.source := by
  obtain ⟨surveyed, inside, source, first, -⟩ := mem_plans orderly regular plan member
  obtain ⟨tells, -⟩ := mem_records orderly regular surveyed inside
  have learned := project.learned_knowledge (project.survey d) progress plan
  rw [known] at learned
  cases learned with
  | renewed listed _ refreshed =>
    rw [first] at listed
    cases listed
    obtain ⟨⟨text, read⟩, -⟩ := refresh_some refreshed
    obtain ⟨tells', own, -⟩ := readRecord_tells _ _ _ _ read
    exact ⟨tells', own.trans source.symm⟩
  | surveyed listed missed =>
    rw [first] at listed
    cases listed
    -- Nothing landed at the source, which is therefore still as it was surveyed.
    refine ⟨tells.later regular underway.later ?_, source.symm⟩
    rcases underway.waiting plan List.mem_cons_self with ⟨path, landed, same⟩ | kept
    · cases same.symm.trans (missed path landed)
    · rw [← source]
      exact kept

end

/-- What a turn may come to. -/
inductive Turn (progress : Progress) (plan : Plan) : Progress -> Prop
  | idle {after : Progress} (site : after.site = progress.site)
    (landed : after.landed = progress.landed) (fates : after.fates = progress.fates)
    (executed : after.execution.executed = progress.execution.executed) : Turn progress plan after
  | acted {after : Progress} {record : FileRecord} {decision : Decision}
    {outcome : Except RelocationError Executed} {entries : Ledger}
    (tells : record.Tells progress.site.disk) (own : record.path = plan.source)
    (decided : Decision.of progress.site.disk record plan.destination = .ok decision)
    (did : Carrier.Did progress.site.disk plan.source plan.destination decision outcome entries
      after.site.disk)
    (ledger : after.site.ledger = progress.site.ledger ++ entries)
    (landed : after.landed = landedAfter progress.landed plan decision outcome)
    (fates : after.fates = fatesAfter progress.fates plan decision outcome)
    (executed : after.execution.executed =
      executedAfter progress.execution.executed plan decision outcome) : Turn progress plan after

theorem open_of_move (d : Disk) (regular : d.Regular) (record : FileRecord) (destination : Path)
    (cases : destination.Plain ∨ destination.Climbs) (level : destination.components.getLast? ≠ some .up)
    (decided : Decision.of d record destination = .ok .move) :
    d.contents (destination.place d.home) = none := by
  have missing := Decision.stat_of_move _ record destination decided
  exact Option.eq_none_iff_forall_ne_some.2
    (Disk.contents_of_notFound _ regular destination (Path.plain_of_level cases level) missing)

theorem apart_of_cases (d : Disk) (source destination : Path) (plain : source.Plain)
    (differs : destination.same source = false) (cases : destination.Plain ∨ destination.Climbs) :
    Carrier.Apart d source destination := by
  intro level same
  rw [(Path.plain_of_level cases level).same_of_place plain d.home same] at differs
  cases differs

section

variable {project : Project} (orderly : project.Orderly) {d : Disk} (regular : d.Regular)

include orderly regular

theorem plan_shape (plan : Plan) (member : plan ∈ (project.survey d).plans) :
    plan.source.Plain ∧ Disk.endsInName plan.source = true ∧
      (plan.destination.Plain ∨ plan.destination.Climbs) ∧
      plan.destination.same plan.source = false := by
  obtain ⟨record, inside, source, -, known, differs⟩ := mem_plans orderly regular plan member
  obtain ⟨tells, folder, plain, below, ended⟩ := mem_records orderly regular record inside
  rw [source] at differs ⊢
  exact ⟨plain.below below, ended, destinationOf_cases project orderly d regular record tells folder plain
    below plan.destination plan.reason known, differs⟩

theorem landed_plain (progress : Disk) (regular' : progress.Regular) (plan : Plan)
    (member : plan ∈ (project.survey d).plans) {decision : Decision} {executed : Executed}
    {entries : Ledger} {after : Disk}
    (did : Carrier.Did progress plan.source plan.destination decision (.ok executed) entries after)
    (lands' : lands decision = true) : plan.destination.Plain := by
  obtain ⟨-, -, cases, -⟩ := plan_shape orderly regular plan member
  exact Path.plain_of_level cases (did.level regular' ⟨executed, rfl⟩ lands')

theorem went_of_carried (progress : Progress) (pending : List Plan) (plan : Plan)
    (underway : Underway d (plan :: pending) progress) (member : plan ∈ (project.survey d).plans)
    {carrier : Carrier} {record : FileRecord} {decision : Decision} {outcome : Except RelocationError Executed}
    {after : Progress} (known : project.knowledge (project.survey d) progress plan = .record record)
    (carried : Carried carrier progress plan decision outcome after) :
    carrier.Went progress.site plan.source plan.destination decision outcome after.site := by
  obtain ⟨tells, own⟩ := known_record orderly regular progress pending plan underway member record known
  obtain ⟨plain, -, cases, differs⟩ := plan_shape orderly regular plan member
  have held := (tells.file underway.later.regular).1
  rw [own] at held
  have went := carrier.execute_went progress.site underway.later.regular plan.source plan.destination decision
    (apart_of_cases progress.site.disk plan.source plan.destination plain differs cases) held.contents
  rwa [carried.ran] at went

theorem executePlan_turn (carrier : Carrier) (progress : Progress) (pending : List Plan) (plan : Plan)
    (underway : Underway d (plan :: pending) progress) (member : plan ∈ (project.survey d).plans) :
    Turn progress plan (project.executePlan carrier (project.survey d) progress plan) := by
  cases project.executePlan_handled carrier (project.survey d) progress plan with
  | unknown _ idle | outdated _ idle | failed _ idle =>
    exact .idle idle.site idle.landed idle.fates idle.executed
  | carried known decided carried =>
    obtain ⟨tells, own⟩ := known_record orderly regular progress pending plan underway member _ known
    have went := went_of_carried orderly regular progress pending plan underway member known carried
    obtain ⟨entries, ledger, did⟩ := went.did underway.later.regular
    exact .acted tells own decided did ledger carried.landed carried.fates carried.executed

theorem Underway.turn (progress after : Progress) (pending : List Plan) (plan : Plan)
    (underway : Underway d (plan :: pending) progress)
    (within : ∀ other ∈ plan :: pending, other ∈ (project.survey d).plans)
    (distinct : ((plan :: pending).map fun other => other.source.components).Nodup)
    (turn : Turn progress plan after) : Underway d pending after := by
  cases turn with
  | idle site landed fates executed =>
    refine ⟨by rw [site]; exact underway.later, fun other member => ?_⟩
    rw [site, landed]
    exact underway.waiting other (List.mem_cons_of_mem _ member)
  | @acted _ decision outcome _ _ _ _ did _ landed _ _ =>
    have later := underway.later.trans did.later
    refine ⟨later, fun other member => ?_⟩
    have earlier : ∀ path ∈ progress.landed, path ∈ after.landed := by
      intro path inside
      rw [landed]
      unfold landedAfter
      split
      · split
        · exact List.mem_append_left _ inside
        · exact inside
      · exact inside
    rcases underway.waiting other (List.mem_cons_of_mem _ member) with ⟨path, inside, same⟩ | kept
    · exact .inl ⟨path, earlier path inside, same⟩
    -- A source that was as surveyed stays so, unless the plan landed just there.
    obtain ⟨record, recorded, source, -⟩ :=
      mem_plans orderly regular other (within other (List.mem_cons_of_mem _ member))
    obtain ⟨plain, -⟩ := plan_shape orderly regular other (within other (List.mem_cons_of_mem _ member))
    obtain ⟨plain', -⟩ := plan_shape orderly regular plan (within plan List.mem_cons_self)
    obtain ⟨⟨content, mode, modified, found⟩, -⟩ :=
      (mem_records orderly regular record recorded).1.file regular
    have node : progress.site.disk.file? (other.source.place progress.site.disk.home) =
        some (.file content mode modified) := by
      rw [underway.later.home, kept, source]
      exact (Disk.file?_eq_some_iff d _ _).2 ⟨Disk.find_node d _ _ _ found, rfl⟩
    have differs : other.source.place progress.site.disk.home ≠
        plan.source.place progress.site.disk.home := by
      intro equal
      have first := (List.nodup_cons.1 distinct).1
      apply first
      exact List.mem_map.2 ⟨other, member, eq_of_beq (plain.same_of_place plain' _ equal)⟩
    by_cases lands' : (∃ executed, outcome = .ok executed) ∧ lands decision = true ∧
        other.source.place progress.site.disk.home = plan.destination.place progress.site.disk.home
    · obtain ⟨⟨executed, rfl⟩, lands', equal⟩ := lands'
      have plain'' := landed_plain orderly regular _ underway.later.regular plan
        (within plan List.mem_cons_self) did lands'
      refine .inl ⟨plan.destination, ?_, plain''.same_of_place plain _ equal.symm⟩
      rw [landed]
      simp [landedAfter, lands']
    · have missed : (∃ executed, outcome = .ok executed) -> lands decision = true ->
          other.source.place progress.site.disk.home ≠
            plan.destination.place progress.site.disk.home := by
        intro ok lands'' equal
        exact lands' ⟨ok, lands'', equal⟩
      have still := did.kept _ _ node differs missed
      rw [underway.later.home] at still node
      exact .inr (by rw [still, ← kept, node])

end

end Project

end Stowage

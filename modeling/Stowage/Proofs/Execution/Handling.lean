import Stowage.Execution

set_option autoImplicit false

namespace Stowage.Project

def landedAfter (landed : List Path) (plan : Plan) (decision : Decision) :
    Except RelocationError Executed -> List Path
  | .ok _ => if lands decision then landed ++ [plan.destination] else landed
  | .error _ => landed

def fatesAfter (fates : Fates) (plan : Plan) (decision : Decision) :
    Except RelocationError Executed -> Fates
  | .ok _ => fates.insert Path.order plan.source (fateOf decision plan.destination)
  | .error _ => fates

def executedAfter (executed : List (Plan × LedgerEntry)) (plan : Plan) (decision : Decision) :
    Except RelocationError Executed -> List (Plan × LedgerEntry)
  | .ok done => executed ++ [({ plan with decision := decision }, done.entry)]
  | .error _ => executed

def issuesOf : Except RelocationError Executed -> List Issue
  | .ok done => (done.incomplete.map RelocationError.issue).toList
  | .error error => [error.issue]

theorem kind_issuesOf (outcome : Except RelocationError Executed) :
    ∀ issue ∈ issuesOf outcome, issue.kind = .executionError := by
  cases outcome with
  | error error => simp [issuesOf, RelocationError.issue]
  | ok done =>
    simp only [issuesOf, Option.mem_toList, Option.map_eq_some_iff]
    rintro issue ⟨error, -, rfl⟩
    rfl

structure Idle (progress after : Progress) (issues : List Issue) : Prop where
  site : after.site = progress.site
  landed : after.landed = progress.landed
  fates : after.fates = progress.fates
  executed : after.execution.executed = progress.execution.executed
  issues : after.execution.issues = progress.execution.issues ++ issues

structure Carried (carrier : Carrier) (progress : Progress) (plan : Plan) (decision : Decision)
    (outcome : Except RelocationError Executed) (after : Progress) : Prop where
  ran : carrier.execute progress.site decision plan.source plan.destination = (outcome, after.site)
  landed : after.landed = landedAfter progress.landed plan decision outcome
  fates : after.fates = fatesAfter progress.fates plan decision outcome
  executed : after.execution.executed = executedAfter progress.execution.executed plan decision outcome
  issues : after.execution.issues = progress.execution.issues ++ issuesOf outcome

/-- What the turn of a plan comes to, by what is known of its source. -/
inductive Handled (project : Project) (carrier : Carrier) (survey : Survey) (progress : Progress)
    (plan : Plan) : Progress -> Prop
  | unknown {after : Progress} (known : project.knowledge survey progress plan = .unknown)
    (idle : Idle progress after []) : Handled project carrier survey progress plan after
  | outdated {after : Progress} (known : project.knowledge survey progress plan = .outdated)
    (idle : Idle progress after []) : Handled project carrier survey progress plan after
  | failed {after : Progress} {issue : Issue} (kind : issue.kind = .executionError)
    (idle : Idle progress after [issue]) : Handled project carrier survey progress plan after
  | carried {after : Progress} {record : FileRecord} {decision : Decision}
    {outcome : Except RelocationError Executed}
    (known : project.knowledge survey progress plan = .record record)
    (decided : Decision.of progress.site.disk record plan.destination = .ok decision)
    (carried : Carried carrier progress plan decision outcome after) :
    Handled project carrier survey progress plan after

theorem settle_carried (carrier : Carrier) (progress : Progress) (plan : Plan) (decision : Decision) :
    Carried carrier progress plan decision
      (carrier.execute progress.site decision plan.source plan.destination).1
      (settle progress plan decision
        (carrier.execute progress.site decision plan.source plan.destination)) := by
  generalize ran : carrier.execute progress.site decision plan.source plan.destination = result
  obtain ⟨outcome, site⟩ := result
  cases outcome with
  | error error => exact ⟨ran, rfl, rfl, rfl, rfl⟩
  | ok done =>
    obtain ⟨entry, incomplete⟩ := done
    cases incomplete with
    | none => exact ⟨ran, rfl, rfl, rfl, (List.append_nil _).symm⟩
    | some error => exact ⟨ran, rfl, rfl, rfl, rfl⟩

theorem Carried.of_note {carrier : Carrier} {progress after : Progress} {note : Note} {plan : Plan}
    {decision : Decision} {outcome : Except RelocationError Executed}
    (carried : Carried carrier (progress.note note) plan decision outcome after) :
    Carried carrier progress plan decision outcome after :=
  ⟨carried.ran, carried.landed, carried.fates, carried.executed, carried.issues⟩

theorem carryOut_cases (carrier : Carrier) (progress : Progress) (plan : Plan) (record : FileRecord) :
    (∃ problem issue, Decision.of progress.site.disk record plan.destination = .error problem ∧
      issue.kind = .executionError ∧ Idle progress (carryOut carrier progress plan record) [issue]) ∨
    ∃ decision outcome, Decision.of progress.site.disk record plan.destination = .ok decision ∧
      Carried carrier progress plan decision outcome (carryOut carrier progress plan record) := by
  unfold carryOut
  split
  next problem failed => exact .inl ⟨problem, _, failed, rfl, rfl, rfl, rfl, rfl, rfl⟩
  next decision decided =>
    refine .inr ⟨decision, (carrier.execute progress.site decision plan.source plan.destination).1, decided, ?_⟩
    -- Whether the decision is told of changes nothing that is done.
    simp only
    split
    · exact settle_carried carrier progress plan decision
    · exact (settle_carried carrier (progress.note _) plan decision).of_note

theorem executePlan_handled (project : Project) (carrier : Carrier) (survey : Survey) (progress : Progress)
    (plan : Plan) :
    project.Handled carrier survey progress plan (project.executePlan carrier survey progress plan) := by
  unfold executePlan
  split
  next known => exact .unknown known ⟨rfl, rfl, rfl, rfl, (List.append_nil _).symm⟩
  next record known =>
    rcases carryOut_cases carrier progress plan record with
      ⟨-, issue, -, kind, idle⟩ | ⟨decision, outcome, decided, done⟩
    · exact .failed kind idle
    · exact .carried known decided done
  next known => exact .outdated known ⟨rfl, rfl, rfl, rfl, (List.append_nil _).symm⟩
  · exact .failed rfl ⟨rfl, rfl, rfl, rfl, rfl⟩

section

variable {project : Project} {carrier : Carrier} {survey : Survey} {progress after : Progress} {plan : Plan}

theorem Handled.executed (handled : project.Handled carrier survey progress plan after) :
    ∃ done, after.execution.executed = progress.execution.executed ++ done := by
  cases handled with
  | unknown _ idle | outdated _ idle | failed _ idle => exact ⟨[], by rw [idle.executed, List.append_nil]⟩
  | @carried _ _ outcome _ _ carried =>
    cases outcome with
    | error => exact ⟨[], by rw [carried.executed, executedAfter, List.append_nil]⟩
    | ok => exact ⟨_, carried.executed⟩

theorem Handled.issues (handled : project.Handled carrier survey progress plan after) :
    ∃ new, after.execution.issues = progress.execution.issues ++ new := by
  cases handled with
  | unknown _ idle | outdated _ idle | failed _ idle => exact ⟨_, idle.issues⟩
  | carried _ _ carried => exact ⟨_, carried.issues⟩

end

end Stowage.Project

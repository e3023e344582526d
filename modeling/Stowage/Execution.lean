import Stowage.Relocation.Carrier
import Stowage.Specifier.Rewrites
import Stowage.Survey

/-!
The execution of a survey: required directories are made, every plan is decided anew and carried
out, and then the imports that the moves left behind are rewritten. A failure concerns one file; the
others go on.
-/

set_option autoImplicit false

namespace Stowage

structure Execution where
  executed : List (Plan × LedgerEntry)
  rewritten : List Path
  issues : List Issue
  notes : List Note

namespace Execution

def empty : Execution := ⟨[], [], [], []⟩

def extensionFixes (execution : Execution) : Nat :=
  execution.executed.countP fun step =>
    step.1.reason = .extensionFix && step.1.decision = .move

def note (execution : Execution) (note : Note) : Execution :=
  { execution with notes := execution.notes ++ [note] }

def report (execution : Execution) (issue : Issue) : Execution :=
  { execution with issues := execution.issues ++ [issue] }

def fail (execution : Execution) (error : RelocationError) : Execution :=
  (execution.note (.warning error.message)).report error.issue

end Execution

structure Progress where
  site : Site
  execution : Execution
  fates : Fates
  landed : List Path

namespace Progress

def start (site : Site) : Progress := ⟨site, .empty, [], []⟩

def note (progress : Progress) (note : Note) : Progress :=
  { progress with execution := progress.execution.note note }

def report (progress : Progress) (issue : Issue) : Progress :=
  { progress with execution := progress.execution.report issue }

def fail (progress : Progress) (error : RelocationError) : Progress :=
  { progress with execution := progress.execution.fail error }

end Progress

namespace Project

def makeRequired (project : Project) (progress : Progress) (dir : Path) : Progress :=
  match progress.site.createDir (project.root.join dir) with
  | (.ok none, site) => { progress with site := site }
  | (.ok (some _), site) =>
    { progress with site := site }.note (.info ("Created " ++ dir.text))
  | (.error error, site) => { progress with site := site }.fail error

/-- A record of what a plan's source holds now, if the plan still applies to it. -/
def refresh (project : Project) (d : Disk) (surveyed : FileRecord) (plan : Plan) :
    Except Unread (Option FileRecord) :=
  match readRecord d surveyed.path surveyed.standing with
  | .error reason => .error reason
  | .ok reading =>
    -- New content may ask for another extension, and with it for another destination.
    match destinationOf project.root project.layout reading.record with
    | some (destination, _) =>
      .ok (if destination.same plan.destination then some reading.record else none)
    | none => .ok none

def fateOf (decision : Decision) (destination : Path) : Fate :=
  match decision with
  | .move => .carried destination
  | .updateNewer => .carried destination
  | .skipOlder => .superseded destination
  | .identical => .superseded destination
  | .conflict => .quarantined

def lands (decision : Decision) : Bool := decision = .move || decision = .updateNewer

def settle (progress : Progress) (plan : Plan) (decision : Decision)
    (outcome : Except RelocationError Executed × Site) : Progress :=
  let moved := { progress with site := outcome.2 }
  match outcome.1 with
  | .error error => moved.fail error
  | .ok executed =>
    -- A step that failed after the content had landed is told, but the plan counts as carried out.
    let told := match executed.incomplete with
      | some error => moved.fail error
      | none => moved
    { told with
      fates := told.fates.insert Path.order plan.source (fateOf decision plan.destination)
      landed := if lands decision then told.landed ++ [plan.destination] else told.landed
      execution :=
        { told.execution with
          executed := told.execution.executed ++
            [({ plan with decision := decision }, executed.entry)] } }

def carryOut (carrier : Carrier) (progress : Progress) (plan : Plan) (record : FileRecord) :
    Progress :=
  -- Earlier plans may have changed what is at the destination since the survey.
  match Decision.of progress.site.disk record plan.destination with
  | .error problem =>
    (progress.note (.warning ("cannot compare " ++ plan.source.text ++ " with " ++
        plan.destination.text ++ ": " ++ problem.message))).report
      ⟨.executionError, plan.source, none, problem.message⟩
  | .ok decision =>
    let told :=
      if decision = plan.decision then progress
      else
        progress.note (.info (plan.source.text ++ ": " ++ plan.decision.label ++ " became " ++
          decision.label))
    settle told plan decision
      (carrier.execute told.site decision plan.source plan.destination)

inductive Knowledge
  | unknown
  | record (record : FileRecord)
  | outdated
  | unread (reason : Unread)

/-- What is known about a plan's source. Where an earlier plan put new content there, it is looked at
again. -/
def knowledge (project : Project) (survey : Survey) (progress : Progress) (plan : Plan) :
    Knowledge :=
  match survey.record? plan.source with
  | none => .unknown
  | some surveyed =>
    if progress.landed.any fun path => path.same plan.source then
      match project.refresh progress.site.disk surveyed plan with
      | .ok (some record) => .record record
      | .ok none => .outdated
      | .error reason => .unread reason
    else .record surveyed

def executePlan (project : Project) (carrier : Carrier) (survey : Survey)
    (progress : Progress) (plan : Plan) : Progress :=
  match project.knowledge survey progress plan with
  | .unknown => progress
  | .record record => carryOut carrier progress plan record
  | .outdated =>
    progress.note (.info (plan.source.text ++ ": replaced content no longer needs " ++
      plan.destination.text))
  | .unread reason =>
    (progress.note (.warning reason.message)).report
      ⟨.executionError, plan.source, none, reason.message⟩

def rewriteFile (progress : Progress) (step : Path × List Edit) : Progress :=
  match applyEdits progress.site.disk step.1 step.2 with
  | .error error => progress.fail error
  | .ok (false, _) => progress
  | .ok (true, disk) =>
    let (_, site) := { progress.site with disk := disk }.recordRewrite step.1
    let told := { progress with site := site }.note
      (.info ("Rewrote " ++ toString step.2.length ++ " import(s) in " ++ step.1.text))
    { told with
      execution := { told.execution with rewritten := told.execution.rewritten ++ [step.1] } }

def relocateAll (project : Project) (carrier : Carrier) (survey : Survey) (site : Site) :
    Progress :=
  let ready := project.layout.requiredDirs.foldl project.makeRequired (.start site)
  survey.plans.foldl (project.executePlan carrier survey) ready

def execute (project : Project) (carrier : Carrier) (survey : Survey) (site : Site) :
    Execution × Site :=
  let relocated := project.relocateAll carrier survey site
  let plans := Specifier.rewrites survey.edges relocated.fates
    (project.root.join project.layout.sourceDir)
  let done := plans.foldl rewriteFile relocated
  (done.execution, done.site)

end Project

end Stowage

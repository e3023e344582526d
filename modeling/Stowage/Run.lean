import Stowage.Report.Basic

set_option autoImplicit false

namespace Stowage.Project

def dryReport (project : Project) (d : Disk) (survey : Survey) : Report :=
  Report.build d.now project.root project.layout survey none [] .none

def carrier (project : Project) (stamp : String) : Carrier :=
  ⟨stamp, project.layout.executableExtensions⟩

def run (project : Project) (stamp : String) (dryRun : Bool) (d : Disk) : Report × Disk :=
  let survey := project.survey d
  if dryRun then (project.dryReport d survey, d)
  else
    let (execution, site) := project.execute (project.carrier stamp) survey ⟨d, []⟩
    (Report.build d.now project.root project.layout survey (some execution) site.ledger .none,
      site.disk)

end Stowage.Project

import Stowage.Proofs.Execution.Relocating

set_option autoImplicit false

namespace Stowage

/-- Where the file that was at `path` is once a plan was carried out: nowhere, if it was overwritten or set
aside. A file that was dropped is nowhere either, unless the one it was dropped for may stand in for it. -/
def Plan.follow (plan : Plan) (standIn : Bool) (path : Path) : Option Path :=
  if plan.source.same path then
    match Project.fateOf plan.decision plan.destination with
    | .carried destination => some destination
    | .superseded destination => if standIn then some destination else none
    | .quarantined => none
  else if plan.decision = .updateNewer && plan.destination.same path then none
  else some path

def Execution.trail (executed : List (Plan × LedgerEntry)) (standIn : Bool) (path : Path) : Option Path :=
  executed.foldl (fun reached step => reached.bind (step.1.follow standIn)) (some path)

theorem Execution.trail_concat (executed : List (Plan × LedgerEntry)) (step : Plan × LedgerEntry)
    (standIn : Bool) (path : Path) : Execution.trail (executed ++ [step]) standIn path =
      (Execution.trail executed standIn path).bind (step.1.follow standIn) := by
  simp [Execution.trail]

theorem Execution.trail_lost (executed more : List (Plan × LedgerEntry)) (standIn : Bool) (path : Path)
    (lost : Execution.trail executed standIn path = none) :
    Execution.trail (executed ++ more) standIn path = none := by
  induction more using List.reverseRecOn with
  | nil => rw [List.append_nil, lost]
  | append_singleton more step ih =>
    rw [← List.append_assoc, Execution.trail_concat, ih]
    rfl

namespace Carrier

section

variable {d after : Disk} {source destination : Path} {decision : Decision}
  {outcome : Except RelocationError Executed} {entries : Ledger}

theorem Did.failed {error : RelocationError}
    (did : Did d source destination decision (.error error) entries after) (place : Location)
    (content : ByteArray) (held : d.contents place = some content) : after.contents place = some content := by
  cases did with
  | refused same => rw [same.held, held]
  | @backed _ _ kept _ fresh _ copied =>
    have other := Ne.symm (apart_of_missing ⟨content, held⟩ fresh)
    rw [copied.held, Files.copy, Function.update_of_ne other, held]

theorem Did.landed (regular : d.Regular) (apart : Apart d source destination) (from' : HasFile d source)
    (did : Did d source destination decision outcome entries after)
    (done : ∃ executed, outcome = .ok executed) (lands : Project.lands decision = true) :
    after.contents (destination.place d.home) = d.contents (source.place d.home) := by
  have apart' := apart (did.level regular done lands)
  cases did with
  | refused | backed =>
    obtain ⟨executed, impossible⟩ := done
    cases impossible
  | moved _ made _ brought =>
    rw [← made.later.home] at apart' ⊢
    rw [brought.landed apart', made.held]
  | updated _ fresh _ copied brought =>
    have other := from'.apart fresh
    rw [← copied.later.home] at apart' ⊢
    rw [brought.landed apart', copied.held, copied.later.home, Files.copy,
      Function.update_of_ne (Ne.symm other)]
  | dropped drops _ _ => rcases drops with rfl | rfl <;> cases lands
  | aside => cases lands

end

end Carrier

namespace Project

section

variable {project : Project} (orderly : project.Orderly) {d : Disk} (regular : d.Regular)

include orderly regular

theorem turn_follow (progress after : Progress) (pending : List Plan) (plan : Plan)
    (underway : Underway d (plan :: pending) progress) (member : plan ∈ (project.survey d).plans)
    (turn : Turn progress plan after) (path : Path) (plain : path.Plain) (content : ByteArray)
    (held : progress.site.disk.contents (path.place d.home) = some content) :
    (after.execution.executed = progress.execution.executed ∧
        after.site.disk.contents (path.place d.home) = some content) ∨
      ∃ step : Plan × LedgerEntry, after.execution.executed = progress.execution.executed ++ [step] ∧
        ∀ reached, step.1.follow false path = some reached -> reached.Plain ∧
          after.site.disk.contents (reached.place d.home) = some content := by
  cases turn with
  | idle site _ _ executed =>
    rw [site]
    exact .inl ⟨executed, held⟩
  | @acted record decision outcome _ tells own decided did _ _ _ executed =>
    have regular' := underway.later.regular
    have home := underway.later.home
    obtain ⟨plain', -, cases, differs⟩ := plan_shape orderly regular plan member
    have apart := apart_of_cases progress.site.disk plan.source plan.destination plain' differs cases
    have from' := (tells.file regular').1
    rw [own] at from'
    cases outcome with
    | error error => exact .inl ⟨executed, did.failed _ _ held⟩
    | ok done =>
      refine .inr ⟨_, executed, ?_⟩
      have lands' : lands decision = true -> plan.destination.Plain := fun lands' =>
        landed_plain orderly regular _ regular' plan member did lands'
      -- The path is that of the source, that of what is replaced, or one the turn passes by.
      intro reached follows
      unfold Plan.follow at follows
      simp only at follows
      split at follows
      next here =>
        obtain ⟨lands'', rfl⟩ : lands decision = true ∧ plan.destination = reached := by
          cases decision <;> cases follows <;> exact ⟨rfl, rfl⟩
        have landed := did.landed regular' apart from' ⟨done, rfl⟩ lands''
        rw [home] at landed
        rw [landed, Path.place_of_same d.home plan.source path here, held]
        exact ⟨lands' lands'', rfl⟩
      next away =>
        split at follows
        · cases follows
        next overwritten =>
          cases follows
          have other : path.place progress.site.disk.home ≠ plan.source.place progress.site.disk.home :=
            fun same => away (plain'.same_of_place plain _ same.symm)
          have missed : lands decision = true -> path.place progress.site.disk.home ≠
              plan.destination.place progress.site.disk.home := by
            intro lands'' same
            cases decision with
            | move =>
              -- A move only lands where no file is.
              have level := did.level regular' ⟨done, rfl⟩ rfl
              rw [← home, same, open_of_move _ regular' record plan.destination cases level decided] at held
              cases held
            | updateNewer =>
              have replaced := (lands' rfl).same_of_place plain _ same.symm
              exact overwritten (by simp [replaced])
            | skipOlder | identical | conflict => cases lands''
          obtain ⟨mode, modified, file⟩ := Disk.file?_of_content? _ _ _ held
          rw [← home] at file
          have still := did.kept _ _ file other fun _ => missed
          refine ⟨plain, ?_⟩
          rw [← held, ← home]
          exact Disk.content?_congr (still.trans file.symm)

theorem reached_trail (carrier : Carrier) (path : Path) (plain : path.Plain) (content : ByteArray)
    (held : d.contents (path.place d.home) = some content) (reached : Path)
    (trail : Execution.trail
      (project.relocateAll carrier (project.survey d) ⟨d, []⟩).execution.executed false path = some reached) :
    reached.Plain ∧ (project.relocateAll carrier (project.survey d) ⟨d, []⟩).site.disk.contents
      (reached.place d.home) = some content := by
  have prepared := prepared_ready project d regular
  have run := reached_induction orderly regular carrier
    (fun _ progress => ∀ reached, Execution.trail progress.execution.executed false path = some reached ->
      reached.Plain ∧ progress.site.disk.contents (reached.place d.home) = some content)
    (by
      intro reached trail
      rw [prepared.executed] at trail
      cases trail
      rw [prepared.unchanged.held]
      exact ⟨plain, held⟩)
    (by
      intro before plan pending progress after split here' there underway turn sofar reached trail
      have handled := project.executePlan_handled carrier (project.survey d) progress plan
      rw [here', ← reached_concat, ← there, ← here'] at handled
      have member : plan ∈ (project.survey d).plans := by simp [split]
      have step := fun here plain held =>
        turn_follow orderly regular progress after pending plan underway member turn here plain content held
      -- A trail that was lost before this plan stays lost; one that was not is at a file this plan may bring on.
      cases turned : Execution.trail progress.execution.executed false path with
      | none =>
        obtain ⟨done, executed⟩ := handled.executed
        rw [executed, Execution.trail_lost _ _ _ _ turned] at trail
        cases trail
      | some here =>
        obtain ⟨plain', held'⟩ := sofar here turned
        rcases step here plain' held' with ⟨executed, still⟩ | ⟨done, executed, follows⟩
        · rw [executed, turned] at trail
          cases trail
          exact ⟨plain', still⟩
        · rw [executed, Execution.trail_concat, turned] at trail
          exact follows reached trail)
    (project.survey d).plans [] (List.append_nil _).symm
  rw [relocateAll_eq] at trail ⊢
  exact run.2 reached trail

end

end Project

end Stowage

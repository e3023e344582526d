import Stowage.Proofs.Disk.Walking
import Stowage.Proofs.Path.Extending
import Stowage.Proofs.Path.Keeping
import Stowage.Proofs.Specifier.Anchoring
import Stowage.Proofs.Specifier.Returning

set_option autoImplicit false

namespace Stowage

open Stowage.Path (separator IsName)

theorem Path.Plain.not_up {p : Path} (plain : p.Plain) : .up ∉ p.components := by
  obtain ⟨names, spelt⟩ := plain
  simp [spelt]

theorem Path.Plain.within {root p : Path} (plain : root.Plain) (within : root.Within p) : p.Plain := by
  obtain ⟨names, spelt⟩ := plain
  obtain ⟨more, spelt'⟩ := within
  exact ⟨names ++ more, by rw [spelt', spelt, List.map_append, List.cons_append]⟩

theorem Disk.isFile_up (d : Disk) : d.isFile ⟨"/.."⟩ = false := by
  unfold Disk.isFile
  split
  next place node found =>
    have leads := ((d.find_leads_iff _ _ _).1 found).2
    have steps : (Path.mk "/..").steps = [.up] := by decide
    have absolute : (Path.mk "/..").isAbsolute = true := by decide
    rw [steps, if_pos absolute] at leads
    cases leads with
    | linger lingers => rcases lingers with impossible | impossible <;> cases impossible
    | up opens onward =>
      -- The way up from there leads back.
      obtain ⟨mode, modified, folder, -⟩ := opens
      cases onward with
      | stop found =>
        cases folder.symm.trans found
        rfl
  · rfl

namespace Anchors

section

variable {place : Location} (named : ∀ name ∈ place, IsName name) {extension : String}
  (whole : separator ∉ extension.toList)

include named whole

theorem beside_root (inner : place ≠ []) : (place.path.append ("." ++ extension)).Plain ∧
    ¬ place.path.Within (place.path.append ("." ++ extension)) := by
  obtain ⟨above, last, rfl⟩ := (List.eq_nil_or_concat' place).resolve_left inner
  obtain ⟨others, own⟩ := List.forall_mem_append.1 named
  have own := own last List.mem_cons_self
  have base : (Path.mk "/").isAbsolute = true := by decide
  have spelt := Path.components_append base others own (own.extended whole)
  rw [← Location.path_eq_joinNames named] at spelt
  refine ⟨⟨_, spelt⟩, ?_⟩
  rintro ⟨names, below⟩
  have root : (Path.mk "/").components = [.root] := by decide
  -- The name would be its own beginning.
  have longer : last ++ ("." ++ extension) = last := by
    rw [spelt, root, Location.components_path named] at below
    simp_all
  have length := congrArg String.length longer
  simp at length

omit named in
theorem below_root (d : Disk) (file : d.isFile ((Location.path []).append ("." ++ extension)) = true) :
    (Location.path []).Within ((Location.path []).append ("." ++ extension)) := by
  have root : (Location.path []).components = [.root] := by decide
  by_cases empty : extension = ""
  · subst empty
    exact ⟨[], by decide⟩
  by_cases dot : extension = "."
  · subst dot
    have free := d.isFile_up
    exact absurd file (by simpa [Location.path, Path.append] using free)
  · have named : IsName ("." ++ extension) := by
      refine ⟨by simp, fun same => empty ?_, fun same => dot ?_, by simpa [separator] using whole⟩ <;>
        · apply String.toList_inj.1
          simpa using congrArg String.toList same
    have joined := Path.components_join_name ⟨"/"⟩ named
    refine ⟨["." ++ extension], ?_⟩
    have base : (Path.mk "/").components = [.root] := root
    rw [root]
    simpa [Location.path, Path.append, Path.join, Path.isAbsolute_name named, separator, base] using joined

end

theorem found_cases {place : Location} (named : ∀ name ∈ place, IsName name) (d : Disk) {extensions : List String}
    (slashless : ∀ extension ∈ extensions, separator ∉ extension.toList) {names : List String}
    (below : ∀ name ∈ names, IsName name) {path : Path}
    (found : Found d.isFile extensions (place.path.joinNames names) path) : place.path.Within path ∨
      place ≠ [] ∧ ∃ extension ∈ extensions, path = place.path.append ("." ++ extension) := by
  have absolute := Location.isAbsolute_path place
  cases found with
  | bare => exact .inl ⟨names, Path.components_joinNames _ below⟩
  | @extended _ _ extension _ split file _ =>
    have member : extension ∈ extensions := by simp [split]
    have whole := slashless extension member
    rcases List.eq_nil_or_concat' names with rfl | ⟨front, last, rfl⟩
    · cases place with
      | nil => exact .inl (below_root whole d file)
      | cons => exact .inr ⟨List.cons_ne_nil _ _, extension, member, rfl⟩
    · obtain ⟨others, own⟩ := List.forall_mem_append.1 below
      have own := own last List.mem_cons_self
      exact .inl ⟨_, Path.components_append absolute others own (own.extended whole)⟩

section

variable {place : Location} (named : ∀ name ∈ place, IsName name) {layout : Layout}
  (slashless : ∀ extension ∈ layout.probeExtensions, separator ∉ extension.toList) (d : Disk) (specifier : String)
  (origin : Path) (strategy : Strategy)

theorem candidate_within {base found : Path} {rest : String}
    (normal : place.path.normalizeWithin (base.join ⟨rest⟩) = some found) : place.path.Within found := by
  obtain ⟨names, below, rfl, -⟩ := Path.normalizeWithin_names (Location.isAbsolute_path place) normal
  exact ⟨names, Path.components_joinNames _ below⟩

include named

theorem leads_out (p : Path) (out : ¬ place <+: p.place []) : place.path.normalizeWithin p = none := by
  cases normal : place.path.normalizeWithin p with
  | none => rfl
  | some found =>
    obtain ⟨names, -, -, leads⟩ := Path.normalizeWithin_names (Location.isAbsolute_path place) normal
    have home := Path.place_of_components [] _ _ (Location.components_path named)
    rw [leads [], home] at out
    exact absurd (List.prefix_append _ _) out

include slashless

/-- Whatever a specifier is read as lies at or below the root, without any `..`, but for a file that has the name of
the root with an extension; and a specifier that leads out of the root is missing. -/
theorem resolution_confined_iff :
    (∀ candidate, (ofLayout place.path layout).resolve d.isFile specifier origin =
        .missing strategy (some candidate) -> place.path.Within candidate ∧ .up ∉ candidate.components) ∧
    (∀ path, (ofLayout place.path layout).resolve d.isFile specifier origin = .resolved strategy path ->
      .up ∉ path.components ∧ (place.path.Within path ↔
        place = [] ∨ ∀ extension ∈ layout.probeExtensions, path ≠ place.path.append ("." ++ extension))) ∧
    ∀ base rest, (ofLayout place.path layout).anchor specifier origin = some (strategy, base, rest) ->
      ((ofLayout place.path layout).resolve d.isFile specifier origin = .missing strategy none ↔
        ¬ place.path.Keeps (base.join ⟨rest⟩)) ∧
      (¬ place <+: (base.join ⟨rest⟩).place [] ->
        (ofLayout place.path layout).resolve d.isFile specifier origin = .missing strategy none) := by
  have plain : place.path.Plain := ⟨place, Location.components_path named⟩
  have absolute := plain.isAbsolute
  refine ⟨fun candidate missing => ?_, fun path resolved => ?_, fun base rest anchored => ?_⟩
  · obtain ⟨base, rest, -, normal, -⟩ := (resolve_eq_missing_iff _ _ _ _ _ _).1 missing
    have within := candidate_within normal
    exact ⟨within, (plain.within within).not_up⟩
  · obtain ⟨base, rest, candidate, -, normal, found⟩ := (resolve_eq_resolved_iff _ _ _ _ _ _).1 resolved
    obtain ⟨names, below, rfl, -⟩ := Path.normalizeWithin_names absolute normal
    rcases found_cases named d slashless below found with within | ⟨inner, extension, member, rfl⟩
    · refine ⟨(plain.within within).not_up, fun _ => ?_, fun _ => within⟩
      -- A path below the root is none of those beside it.
      refine or_iff_not_imp_left.2 fun inner extension member same => ?_
      exact (beside_root named (slashless extension member) inner).2 (same ▸ within)
    · obtain ⟨plain', beside⟩ := beside_root named (slashless extension member) inner
      refine ⟨plain'.not_up, fun within => absurd within beside, fun free => ?_⟩
      exact absurd rfl (free.resolve_left inner extension member)
  · have missing : (ofLayout place.path layout).resolve d.isFile specifier origin = .missing strategy none ↔
        place.path.normalizeWithin (base.join ⟨rest⟩) = none := by
      rw [resolve_eq_missing_iff, anchored]
      simp [ofLayout]
    rw [missing]
    constructor
    · rw [← Path.normalizeWithin_isSome_iff absolute, Option.not_isSome_iff_eq_none]
    · exact leads_out named _

end

def beside : Disk where
  tree := .row "" (some (.folder Disk.newFolderMode ⟨1, 0⟩)) (.row "project"
    (some (.folder Disk.newFolderMode ⟨1, 0⟩))
      (.row "app.ts" (some (.file "import '.'".toUTF8 Disk.newFileMode ⟨1, 0⟩)) .bare .bare)
    (.row "project.ts" (some (.file "".toUTF8 Disk.newFileMode ⟨1, 0⟩)) .bare .bare)) .bare
  home := ["project"]
  privileged := true
  now := ⟨2, 0⟩

theorem beside_resolved : (∀ name ∈ ["project"], IsName name) ∧
    (∀ extension ∈ Layout.usual.probeExtensions, separator ∉ extension.toList) ∧
    (ofLayout (Location.path ["project"]) .usual).resolve beside.isFile "." ⟨"/project/app.ts"⟩ =
      .resolved .relative ⟨"/project.ts"⟩ := by
  have computed : (ofLayout (Location.path ["project"]) .usual).anchor "." ⟨"/project/app.ts"⟩ =
        some (.relative, ⟨"/project"⟩, ".") ∧
      (Location.path ["project"]).normalizeWithin ((Path.mk "/project").join ⟨"."⟩) = some ⟨"/project"⟩ ∧
      (probed Layout.usual.probeExtensions ⟨"/project"⟩).find? beside.isFile = some ⟨"/project.ts"⟩ := by
    decide +kernel
  obtain ⟨anchored, normal, found⟩ := computed
  refine ⟨by simp [IsName, separator], by decide, ?_⟩
  exact (resolve_eq_resolved_iff _ _ _ _ _ _).2 ⟨_, _, _, anchored, normal, (find?_probed_iff _ _ _ _).1 found⟩

theorem beside_confined_iff : (∀ name ∈ ["project"], IsName name) ∧
    (∀ extension ∈ Layout.usual.probeExtensions, separator ∉ extension.toList) ∧
    (ofLayout (Location.path ["project"]) .usual).resolve beside.isFile "." ⟨"/project/app.ts"⟩ =
      .resolved .relative ⟨"/project.ts"⟩ ∧
    ¬ (Location.path ["project"]).Within ⟨"/project.ts"⟩ := by
  obtain ⟨named, slashless, resolved⟩ := beside_resolved
  refine ⟨named, slashless, resolved, fun within => ?_⟩
  obtain ⟨-, confined, -⟩ := resolution_confined_iff named slashless beside "." ⟨"/project/app.ts"⟩ .relative
  have free := ((confined _ resolved).2.1 within).resolve_left (List.cons_ne_nil _ _)
  exact free "ts" (by decide) rfl

theorem not_resolution_always_confined :
    ¬ ∀ (place : Location) (layout : Layout) (d : Disk) (specifier : String) (origin path : Path) (strategy : Strategy),
      (∀ name ∈ place, IsName name) -> (∀ extension ∈ layout.probeExtensions, separator ∉ extension.toList) ->
      place.path.Under origin ->
      (ofLayout place.path layout).resolve d.isFile specifier origin = .resolved strategy path ->
      place.path.Within path ∧ .up ∉ path.components := by
  intro always
  obtain ⟨named, slashless, resolved⟩ := beside_resolved
  have origin : (Location.path ["project"]).Under ⟨"/project/app.ts"⟩ := ⟨["app.ts"], by simp, by decide +kernel⟩
  obtain ⟨⟨names, below⟩, -⟩ := always _ _ _ _ _ _ _ named slashless origin resolved
  have spelt : (Path.mk "/project.ts").components = [.root, .name "project.ts"] ∧
      (Location.path ["project"]).components = [.root, .name "project"] := by decide +kernel
  rw [spelt.1, spelt.2] at below
  simp at below

end Anchors

end Stowage

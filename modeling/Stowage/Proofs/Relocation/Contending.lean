import Mathlib.Data.List.Infix
import Stowage.Proofs.Disk.Checking
import Stowage.Proofs.Relocation.Bringing

set_option autoImplicit false

namespace Stowage

namespace Carrier

def Differ (d : Disk) (p q : Path) : Prop :=
  ∀ content modified other time, d.dated (p.place d.home) = some (content, modified) ->
    d.dated (q.place d.home) = some (other, time) -> content ≠ other ∧ modified ≠ time

/-- Files that are to be brought to one destination, all at paths of their own, with contents and times of
their own. -/
structure Contest (d : Disk) (sources : List Path) (destination : Path) : Prop where
  regular : d.Regular
  privileged : d.privileged = true
  normal : ∀ p ∈ destination :: sources, p.Normal
  apart : (destination :: sources).Pairwise fun p q => p.same q = false
  held : ∀ source ∈ sources, (d.dated (source.place d.home)).isSome
  level : ¬ d.FolderAt (destination.place d.home)
  clear : ∀ place, place <+: (destination.place d.home).folder -> d.file? place = none
  differ : (destination :: sources).Pairwise (Differ d)
  digests : Set.InjOn Sha256.hex {content | d.contents.Holds content}

/-- The system takes all paths that come up, those of the copies among them. -/
structure Accepted (carrier : Carrier) (d : Disk) (sources : List Path) (destination : Path) (taken : List Nat) :
    Prop where
  usable : ∀ p ∈ destination :: sources, p.Usable
  stamp : Path.separator ∉ carrier.stamp.toList
  listed : ∀ number, d.node? ((carrier.siblingAt destination "backup" number).place d.home) ≠ none ->
    number ∈ taken
  fits : ∀ number < taken.length + sources.length, (carrier.siblingAt destination "backup" number).Usable

theorem Contest.places {d : Disk} {sources : List Path} {destination : Path}
    (contest : Contest d sources destination) :
    (destination :: sources).Pairwise fun p q => p.place d.home ≠ q.place d.home := by
  refine contest.apart.imp_of_mem fun {p q} known known' apart same => ?_
  rw [(contest.normal p known).plain.same_of_place (contest.normal q known').plain d.home same] at apart
  cases apart

theorem Contest.free {d : Disk} {sources : List Path} {destination source : Path}
    (contest : Contest d sources destination) (usable : ∀ p ∈ destination :: sources, p.Usable)
    (known : source ∈ sources) : Unhindered d source destination where
  regular := contest.regular
  privileged := contest.privileged
  normal := contest.normal source (List.mem_cons_of_mem _ known)
  usable := usable source (List.mem_cons_of_mem _ known)
  normal' := contest.normal destination List.mem_cons_self
  usable' := usable destination List.mem_cons_self
  held := contest.held source known
  apart := (List.pairwise_cons.1 contest.places).1 source known
  clear place within := contest.regular.open_of_dated ((d.dated_eq_none_iff place).2 (contest.clear place within))
  level := contest.level

def bringAll (carrier : Carrier) (destination : Path) (site : Site) (sources : List Path) : Site :=
  sources.foldl (carrier.bring destination) site

theorem bringAll_concat (carrier : Carrier) (destination : Path) (site : Site) (front : List Path) (source : Path) :
    carrier.bringAll destination site (front ++ [source]) =
      carrier.bring destination (carrier.bringAll destination site front) source := by
  simp [bringAll]

section

variable (carrier : Carrier) (d : Disk) (ledger : Ledger) (destination : Path)

/-- How far a run has come: what is at the destination, what is still to be brought, and what is kept. -/
structure Stage (front rest : List Path) (copies : List Path) (used : List Nat) (now : Disk) : Prop where
  later : d.Later now
  grown : ∀ place, now.FolderAt place -> d.FolderAt place ∨ place <+: destination.place d.home
  clear : ∀ place, place <+: (destination.place d.home).folder -> now.dated place = none
  level : ¬ now.FolderAt (destination.place d.home)
  pending : ∀ source ∈ rest, now.dated (source.place d.home) = d.dated (source.place d.home)
  newest : ∀ rival ∈ destination :: front, ∀ content time,
    d.dated (rival.place d.home) = some (content, time) ->
    ∃ other modified, now.dated (destination.place d.home) = some (other, modified) ∧ time.order modified ≠ .gt
  among : ∀ content modified, now.dated (destination.place d.home) = some (content, modified) ->
    ∃ rival ∈ destination :: front, d.dated (rival.place d.home) = some (content, modified)
  gone : ∀ source ∈ front, now.dated (source.place d.home) = none ∨
    ∃ copy ∈ copies, copy.place d.home = source.place d.home
  beside : ∀ copy ∈ copies, (∃ number, copy = carrier.siblingAt destination "backup" number) ∧
    ∀ source ∈ rest, copy.place d.home ≠ source.place d.home
  kept : ∀ earlier, earlier <+: front -> ∀ content,
    (carrier.bringAll destination ⟨d, ledger⟩ earlier).disk.contents (destination.place d.home) = some content ->
    now.contents (destination.place d.home) = some content ∨
      ∃ copy ∈ copies, now.contents (copy.place d.home) = some content
  listed : ∀ number, now.node? ((carrier.siblingAt destination "backup" number).place d.home) ≠ none ->
    number ∈ used

variable {carrier d ledger destination}

theorem Stage.start {sources : List Path} {taken : List Nat} (contest : Contest d sources destination)
    (accepted : Accepted carrier d sources destination taken) :
    Stage carrier d ledger destination [] sources [] taken d where
  later := .refl contest.regular
  grown _ found := .inl found
  clear place within := (d.dated_eq_none_iff place).2 (contest.clear place within)
  level := contest.level
  pending _ _ := rfl
  newest rival among content time held := by
    obtain rfl := List.mem_singleton.1 among
    exact ⟨content, time, held, by simp [Instant.order_self]⟩
  among content modified held := ⟨destination, List.mem_cons_self, held⟩
  gone := by simp
  beside := by simp
  kept earlier within content held := by
    obtain rfl := List.prefix_nil.1 within
    exact .inl held
  listed := accepted.listed

theorem Stage.free {front rest copies : List Path} {used : List Nat} {now : Disk} {source : Path}
    {taken : List Nat} (contest : Contest d (front ++ source :: rest) destination)
    (accepted : Accepted carrier d (front ++ source :: rest) destination taken)
    (stage : Stage carrier d ledger destination front (source :: rest) copies used now) :
    Unhindered now source destination := by
  have member : source ∈ front ++ source :: rest := by simp
  have before := contest.free accepted.usable member
  have home := stage.later.home
  refine { before with
    regular := stage.later.regular
    privileged := stage.later.privileged.trans before.privileged
    held := ?_
    apart := ?_
    clear := ?_
    level := ?_ }
  all_goals rw [home]
  · rw [stage.pending source List.mem_cons_self]
    exact before.held
  · exact before.apart
  · exact fun place within => stage.later.regular.open_of_dated (stage.clear place within)
  · exact stage.level

section

variable {front rest copies : List Path} {used : List Nat} {now after : Disk} {source : Path} {copy : Option Path}
  (stage : Stage carrier d ledger destination front (source :: rest) copies used now)
  (met : Met now (source.place d.home) (destination.place d.home) (copy.map (Path.place d.home)) after.dated)

include met in
theorem Met.unchanged (place : Location) (away : place ≠ source.place d.home)
    (away' : place ≠ destination.place d.home) (present : now.dated place ≠ none) :
    after.dated place = now.dated place :=
  met.rest place away away' fun among => present (met.fresh place among)

include stage met

theorem Stage.newest_step (rival : Path) (known : rival ∈ destination :: (front ++ [source])) (content : ByteArray)
    (time : Instant) (held : d.dated (rival.place d.home) = some (content, time)) :
    ∃ other modified, after.dated (destination.place d.home) = some (other, modified) ∧
      time.order modified ≠ .gt := by
  obtain ⟨other, modified, here, -, first⟩ := met.won
  refine ⟨other, modified, here, ?_⟩
  rw [← List.cons_append, List.mem_append, List.mem_singleton] at known
  rcases known with earlier | rfl
  · obtain ⟨rival', time', stood, before⟩ := stage.newest rival earlier content time held
    exact Instant.not_gt_trans before (first rival' time' (.inl stood))
  · rw [← stage.pending rival List.mem_cons_self] at held
    exact first content time (.inr held)

theorem Stage.among_step (content : ByteArray) (modified : Instant)
    (here : after.dated (destination.place d.home) = some (content, modified)) :
    ∃ rival ∈ destination :: (front ++ [source]), d.dated (rival.place d.home) = some (content, modified) := by
  obtain ⟨other, time, here', from', -⟩ := met.won
  cases here.symm.trans here'
  rcases from' with stood | held
  · obtain ⟨rival, known, held⟩ := stage.among content modified stood
    exact ⟨rival, by simpa [← or_assoc] using .inl (by simpa using known), held⟩
  · rw [stage.pending source List.mem_cons_self] at held
    exact ⟨source, by simp, held⟩

theorem Stage.kept_step (aside : ∀ number,
      (carrier.siblingAt destination "backup" number).place d.home ≠ destination.place d.home)
    (content : ByteArray)
    (kept : now.contents (destination.place d.home) = some content ∨
      ∃ other ∈ copies, now.contents (other.place d.home) = some content) :
    after.contents (destination.place d.home) = some content ∨
      ∃ other ∈ copies ++ copy.toList, after.contents (other.place d.home) = some content := by
  simp only [Disk.contents_eq_map, Option.map_eq_some_iff, Prod.exists] at kept ⊢
  rcases kept with ⟨_, modified, stood, rfl⟩ | ⟨other, known, _, modified, held, rfl⟩
  · rcases met.saved _ modified stood with same | ⟨place, new, saved⟩
    · exact .inl ⟨_, modified, same, rfl⟩
    · obtain ⟨kept, among, rfl⟩ := Option.map_eq_some_iff.1 new
      exact .inr ⟨kept, by simp [among], _, now.now, saved, rfl⟩
  · obtain ⟨⟨number, rfl⟩, apart⟩ := stage.beside other known
    have same := met.unchanged _ (apart source List.mem_cons_self) (aside number) (by simp [held])
    exact .inr ⟨_, List.mem_append_left _ known, _, modified, same.trans held, rfl⟩

end

theorem Contest.differs {front rest : List Path} {source : Path}
    (contest : Contest d (front ++ source :: rest) destination) (rival : Path)
    (known : rival ∈ destination :: front) (content own : ByteArray) (modified time : Instant)
    (stood : d.dated (rival.place d.home) = some (content, modified))
    (held : d.dated (source.place d.home) = some (own, time)) :
    Sha256.hex content ≠ Sha256.hex own ∧ modified ≠ time := by
  have split : ((destination :: front) ++ source :: rest).Pairwise (Differ d) := contest.differ
  obtain ⟨content', modified'⟩ := (List.pairwise_append.1 split).2.2 rival known source List.mem_cons_self
    content modified own time stood held
  refine ⟨fun same => content' (contest.digests ?_ ?_ same), modified'⟩
  · exact ⟨_, by rw [Disk.contents_eq_map, stood]; rfl⟩
  · exact ⟨_, by rw [Disk.contents_eq_map, held]; rfl⟩

theorem Contest.beside {sources : List Path} (contest : Contest d sources destination)
    (stamp : Path.separator ∉ carrier.stamp.toList) : ∀ number,
      (carrier.siblingAt destination "backup" number).place d.home ≠ destination.place d.home ∧
        ((carrier.siblingAt destination "backup" number).place d.home).length =
          (destination.place d.home).length ∧
        ∀ other, (carrier.siblingAt destination "backup" number).place d.home =
          (carrier.siblingAt destination "backup" other).place d.home -> number = other := by
  obtain ⟨above, name, own, named, places⟩ := carrier.siblingAt_parts stamp "backup" (by simp)
    (contest.normal destination List.mem_cons_self) d.home
  intro number
  refine ⟨fun same => ?_, by simp [places, own], fun other same => ?_⟩
  · rw [places, own, List.append_cancel_left_eq, List.singleton_inj] at same
    have longer := carrier.siblingName_length destination "backup" number name named
    rw [same] at longer
    omega
  · rw [places, places, List.append_cancel_left_eq, List.singleton_inj] at same
    exact carrier.siblingName_injective destination "backup" same

theorem Contest.across {front rest : List Path} (contest : Contest d (front ++ rest) destination) (p : Path)
    (known : p ∈ destination :: front) (q : Path) (known' : q ∈ rest) : p.place d.home ≠ q.place d.home := by
  have split : ((destination :: front) ++ rest).Pairwise fun p q => p.place d.home ≠ q.place d.home :=
    contest.places
  exact (List.pairwise_append.1 split).2.2 p known q known'

section

variable {front rest copies : List Path} {used : List Nat} {now after : Disk} {source : Path} {copy : Option Path}
  {number : Nat} (contest : Contest d (front ++ source :: rest) destination)
  (stage : Stage carrier d ledger destination front (source :: rest) copies used now)
  (met : Met now (source.place d.home) (destination.place d.home) (copy.map (Path.place d.home)) after.dated)

include contest stage met

theorem Stage.gone_step (q : Path) (known : q ∈ front ++ [source]) : after.dated (q.place d.home) = none ∨
    ∃ kept ∈ copies ++ copy.toList, kept.place d.home = q.place d.home := by
  rcases List.mem_append.1 known with earlier | last
  · have apart := contest.across q (List.mem_cons_of_mem _ earlier) source List.mem_cons_self
    have away := (List.pairwise_cons.1 contest.places).1 q (List.mem_append_left _ earlier)
    rcases stage.gone q earlier with absent | ⟨kept, known, same⟩
    · by_cases taken : q.place d.home ∈ copy.map (Path.place d.home)
      · obtain ⟨kept, known, same⟩ := Option.map_eq_some_iff.1 taken
        exact .inr ⟨kept, by simp [known], same⟩
      · exact .inl ((met.rest _ apart (Ne.symm away) taken).trans absent)
    · exact .inr ⟨kept, List.mem_append_left _ known, same⟩
  · rw [List.mem_singleton.1 last]
    exact .inl met.gone

variable (stamp : Path.separator ∉ carrier.stamp.toList)
  (named : ∀ place ∈ copy.map (Path.place d.home),
    place = (carrier.siblingAt destination "backup" number).place d.home)

include stamp named

theorem Stage.clear_step (place : Location) (above : place <+: (destination.place d.home).folder) :
    after.dated place = none := by
  -- What is above the destination has fewer names than what is beside it.
  have lower : place.length < (destination.place d.home).length := by
    have short := List.IsPrefix.length_le above
    have filled := List.length_pos_iff.2 ((contest.normal destination List.mem_cons_self).filled d.home)
    rw [Location.folder, List.length_dropLast] at short
    omega
  by_cases here : place = source.place d.home
  · rw [here, met.gone]
  · rw [met.rest place here, stage.clear place above]
    · rintro rfl
      exact absurd lower (Nat.lt_irrefl _)
    · intro known
      rw [named place known, (contest.beside stamp number).2.1] at lower
      exact absurd lower (Nat.lt_irrefl _)

theorem Stage.listed_step (later : now.Later after)
    (grown : ∀ place, after.FolderAt place -> now.FolderAt place ∨ place <+: destination.place d.home) (other : Nat)
    (there : after.node? ((carrier.siblingAt destination "backup" other).place d.home) ≠ none) :
    other ∈ number :: used := by
  by_cases same : other = number
  · exact List.mem_cons.2 (.inl same)
  refine List.mem_cons_of_mem _ (stage.listed other ?_)
  obtain ⟨away, long, single⟩ := contest.beside stamp other
  rcases Option.eq_none_or_eq_some (after.dated
    ((carrier.siblingAt destination "backup" other).place d.home)) with absent | ⟨value, held⟩
  · -- Nothing that is no file comes to be beside the destination.
    have folder := (later.regular.open_of_dated absent).resolve_left there
    rcases grown _ folder with ⟨mode, modified, old⟩ | within
    · simp [old]
    · exact absurd (within.eq_of_length long) away
  · rw [met.rest _ ?_ away ?_] at held
    · rintro missing
      simp [Disk.dated, missing] at held
    · intro here
      rw [here, met.gone] at held
      cases held
    · exact fun known => same (single number (named _ known))

end

theorem Stage.step {front rest copies : List Path} {used : List Nat} {site : Site} {source : Path}
    {taken : List Nat} (contest : Contest d (front ++ source :: rest) destination)
    (accepted : Accepted carrier d (front ++ source :: rest) destination taken)
    (run : carrier.bringAll destination ⟨d, ledger⟩ front = site)
    (short : used.length ≤ taken.length + front.length)
    (stage : Stage carrier d ledger destination front (source :: rest) copies used site.disk) :
    ∃ copies' used', used'.length ≤ used.length + 1 ∧
      Stage carrier d ledger destination (front ++ [source]) rest copies' used'
        (carrier.bring destination site source).disk := by
  have free := stage.free contest accepted
  have home := stage.later.home
  obtain ⟨number, within, sibling⟩ := carrier.sibling_number site.disk stage.later.regular destination "backup" used
    (by rw [home]; exact stage.listed)
  have fits : (carrier.sibling site.disk destination "backup").Usable := by
    rw [sibling]
    apply accepted.fits
    simp only [List.length_append, List.length_cons]
    omega
  -- What stands at the destination came from an earlier rival, so that it differs from the next file.
  obtain ⟨copy, new, met⟩ := bring_met carrier free accepted.stamp fits (by
    intro content modified own time stood held
    rw [home] at stood held
    rw [stage.pending source List.mem_cons_self] at held
    obtain ⟨rival, known, held'⟩ := stage.among content modified stood
    exact contest.differs rival known content own modified time held' held)
  obtain ⟨later, grown⟩ := bring_later carrier free
  have step := carrier.bringAll_concat destination ⟨d, ledger⟩ front source
  rw [run] at step
  rw [home] at met grown
  rw [sibling] at new
  generalize carrier.bring destination site source = after at met later grown step ⊢
  have named : ∀ place ∈ copy.map (Path.place d.home),
      place = (carrier.siblingAt destination "backup" number).place d.home := by
    intro place among
    obtain ⟨kept, known, rfl⟩ := Option.map_eq_some_iff.1 among
    rw [new kept known]
  have present : ∀ q ∈ rest, site.disk.dated (q.place d.home) ≠ none := by
    intro q known
    rw [stage.pending q (List.mem_cons_of_mem _ known)]
    exact Option.isSome_iff_ne_none.1 (contest.held q (by simp [known]))
  refine ⟨copies ++ copy.toList, number :: used, by simp, {
    later := stage.later.trans later
    grown := fun place found => (grown place found).elim (stage.grown place) .inr
    clear := stage.clear_step contest met accepted.stamp named
    level := ?_
    pending := fun q known => ?_
    newest := stage.newest_step met
    among := stage.among_step met
    gone := stage.gone_step contest met
    beside := fun kept known => ?_
    kept := fun earlier early content held => ?_
    listed := stage.listed_step contest met accepted.stamp named later grown }⟩
  · rintro ⟨mode, modified, folder⟩
    obtain ⟨content, time, here, -⟩ := met.won
    simp [Disk.dated, folder] at here
  · have onward : Contest d ((front ++ [source]) ++ rest) destination := by simpa using contest
    rw [met.unchanged _ (Ne.symm (onward.across source (by simp) q known))
      (Ne.symm (onward.across destination List.mem_cons_self q known)) (present q known)]
    exact stage.pending q (List.mem_cons_of_mem _ known)
  · rcases List.mem_append.1 known with old | fresh
    · obtain ⟨own, apart⟩ := stage.beside kept old
      exact ⟨own, fun q known => apart q (List.mem_cons_of_mem _ known)⟩
    · have known := Option.mem_toList.1 fresh
      refine ⟨⟨number, new kept known⟩, fun q among same => present q among ?_⟩
      rw [← same]
      exact met.fresh _ (Option.mem_map_of_mem _ known)
  · rcases List.prefix_concat_iff.1 early with rfl | early
    · rw [step] at held
      exact .inl held
    · exact stage.kept_step met (fun number => (contest.beside accepted.stamp number).1) content
        (stage.kept earlier early content held)

variable (ledger) in
theorem Stage.reached {sources : List Path} {taken : List Nat} (contest : Contest d sources destination)
    (accepted : Accepted carrier d sources destination taken) (front rest : List Path)
    (split : sources = front ++ rest) :
    ∃ copies used, used.length ≤ taken.length + front.length ∧
      Stage carrier d ledger destination front rest copies used
        (carrier.bringAll destination ⟨d, ledger⟩ front).disk := by
  induction front using List.reverseRecOn generalizing rest with
  | nil =>
    obtain rfl : sources = rest := split
    exact ⟨[], taken, Nat.le_refl _, .start contest accepted⟩
  | append_singleton front source ih =>
    rw [List.append_assoc, List.singleton_append] at split
    obtain ⟨copies, used, short, stage⟩ := ih (source :: rest) split
    subst split
    obtain ⟨copies', used', short', stage'⟩ := stage.step contest accepted rfl short
    refine ⟨copies', used', ?_, by rwa [bringAll_concat]⟩
    rw [List.length_append, List.length_singleton]
    omega

end

/-- How a contest ends. -/
structure Decided (carrier : Carrier) (d : Disk) (sources : List Path) (destination : Path)
    (after : List Path -> Disk) (copies : List Path) : Prop where
  won : ∃ winner ∈ destination :: sources, ∃ content modified,
    d.dated (winner.place d.home) = some (content, modified) ∧
    (after sources).dated (destination.place d.home) = some (content, modified) ∧
    ∀ rival ∈ destination :: sources, ∀ other time, d.dated (rival.place d.home) = some (other, time) ->
      time.order modified ≠ .gt
  gone : ∀ source ∈ sources, (after sources).node? (source.place d.home) = none ∨
    ∃ copy ∈ copies, copy.place d.home = source.place d.home
  beside : ∀ copy ∈ copies, ∃ number, copy = carrier.siblingAt destination "backup" number
  kept : ∀ earlier, earlier <+: sources -> ∀ content,
    (after earlier).contents (destination.place d.home) = some content ->
    (after sources).contents (destination.place d.home) = some content ∨
      ∃ copy ∈ copies, (after sources).contents (copy.place d.home) = some content

/-- The newest file wins, in whatever order the files come. -/
theorem newest_wins (carrier : Carrier) (d : Disk) (ledger : Ledger) (sources : List Path) (destination : Path)
    (taken : List Nat) (contest : Contest d sources destination)
    (accepted : Accepted carrier d sources destination taken)
    (contested : ∃ rival ∈ destination :: sources, (d.dated (rival.place d.home)).isSome) :
    ∃ copies, Decided carrier d sources destination
      (fun front => (carrier.bringAll destination ⟨d, ledger⟩ front).disk) copies := by
  obtain ⟨copies, used, -, stage⟩ := Stage.reached ledger contest accepted sources [] (by simp)
  refine ⟨copies, ?_, fun source known => ?_, fun copy known => (stage.beside copy known).1, stage.kept⟩
  · -- What is at the destination was one of the rivals', and none of them is newer.
    obtain ⟨rival, known, held⟩ := contested
    obtain ⟨⟨content, time⟩, held⟩ := Option.isSome_iff_exists.1 held
    obtain ⟨other, modified, here, -⟩ := stage.newest rival known content time held
    obtain ⟨winner, among, own⟩ := stage.among other modified here
    refine ⟨winner, among, other, modified, own, here, fun rival known content time held => ?_⟩
    obtain ⟨other', modified', here', before⟩ := stage.newest rival known content time held
    cases here.symm.trans here'
    exact before
  · refine (stage.gone source known).imp_left fun absent => ?_
    refine (stage.later.regular.open_of_dated absent).resolve_right fun folder => ?_
    obtain ⟨⟨content, time⟩, held⟩ := Option.isSome_iff_exists.1 (contest.held source known)
    rcases stage.grown _ folder with ⟨mode, modified, old⟩ | within
    · simp [Disk.dated, old] at held
    · -- No source is above the destination.
      have apart := (List.pairwise_cons.1 contest.places).1 source known
      have filled := (contest.normal destination List.mem_cons_self).filled d.home
      rw [← List.dropLast_append_getLast filled, List.prefix_concat_iff,
        List.dropLast_append_getLast filled] at within
      have absent := contest.clear _ (within.resolve_left (Ne.symm apart))
      rw [← Disk.dated_eq_none_iff, held] at absent
      cases absent

def arrival : Disk :=
  ((((⟨.bare, [], true, ⟨5, 0⟩⟩ : Disk).put [] (.folder 0o755 ⟨1, 0⟩)).put ["src"]
    (.folder 0o755 ⟨1, 0⟩)).put ["downloads"] (.folder 0o755 ⟨1, 0⟩)).put ["downloads", "b.ts"]
    (.file "bb".toUTF8 0o644 ⟨4, 0⟩)

-- The names are left open: that of a copy may be among them, and one may be too long for a copy.
def rivals (name other : String) : Disk :=
  (arrival.put ["src", other] (.file "ccc".toUTF8 0o644 ⟨3, 0⟩)).put ["src", name] (.file "a".toUTF8 0o644 ⟨2, 0⟩)

def beside (name : String) : Path := Path.join ⟨"/src"⟩ ⟨name⟩

theorem beside_components {name : String} (named : Path.IsName name) :
    (beside name).components = .root :: ["src", name].map .name := by
  rw [beside, Path.components_join_name ⟨"/src"⟩ named]
  rfl

theorem beside_place {name : String} (named : Path.IsName name) (home : Location) :
    (beside name).place home = ["src", name] :=
  Path.place_of_components home _ ["src", name] (beside_components named)

theorem rivals_dated (name other : String) : (rivals name other).dated =
    Function.update (Function.update arrival.dated ["src", other] (some ("ccc".toUTF8, ⟨3, 0⟩))) ["src", name]
      (some ("a".toUTF8, ⟨2, 0⟩)) := by
  rw [rivals, Disk.dated_put, Disk.dated_put]

theorem rivals_contents (name other : String) (content : ByteArray)
    (held : (rivals name other).contents.Holds content) : content ∈ ["a".toUTF8, "bb".toUTF8, "ccc".toUTF8] := by
  obtain ⟨place, held⟩ := held
  rw [Disk.contents_eq_map, rivals_dated] at held
  by_cases first : place = ["src", name]
  · subst first
    simp at held
    simp [held]
  by_cases second : place = ["src", other]
  · subst second
    rw [Function.update_of_ne first] at held
    simp at held
    simp [held]
  · rw [Function.update_of_ne first, Function.update_of_ne second, ← Disk.contents_eq_map] at held
    have known : ∀ content ∈ arrival.heldContents, content = "bb".toUTF8 := by decide
    rw [known content ((Disk.mem_heldContents_iff _ _).2 ⟨place, held⟩)]
    simp

theorem digests_distinct : (["a".toUTF8, "bb".toUTF8, "ccc".toUTF8].map Sha256.hex).Nodup := by
  have first : Sha256.hex "a".toUTF8 = "ca978112ca1bbdcafac231b39a23dc4da786eff8147c4e72b9807785afee48bb" := by
    decide +kernel
  have second : Sha256.hex "bb".toUTF8 = "3b64db95cb55c763391c707108489ae18b4112d783300de38e033b4c98c3deaf" := by
    decide +kernel
  have third : Sha256.hex "ccc".toUTF8 = "64daa44ad493ff28a96effab6e77f1732a3d97d83241581b37dbd70a7a4900fe" := by
    decide +kernel
  simp only [List.map_cons, List.map_nil, first, second, third]
  decide

theorem arrival_missing (name : String) : arrival.node? ["src", name] = none := by
  have shallow : ∀ entry ∈ arrival.nodes, entry.1.head? = some "src" -> entry.1.length = 1 := by decide
  by_contra present
  obtain ⟨node, found⟩ := Option.ne_none_iff_exists'.1 present
  have deep := shallow _ (arrival.mem_nodes_of_node? _ node found) rfl
  simp at deep

section

variable {name other : String} (named : Path.IsName name) (named' : Path.IsName other) (apart : other ≠ name)

include named named' apart

theorem arrival_later : arrival.Later (rivals name other) := by
  have start : arrival.Regular := by decide
  have folder : arrival.FolderAt ["src"] := Disk.folder_of_any (by decide)
  have first := arrival.put_later start ["src", other] (.file "ccc".toUTF8 0o644 ⟨3, 0⟩)
    (arrival.fits_free ["src"] other _ (by simp) (arrival_missing other) named' folder)
  refine first.trans (Disk.put_later _ first.regular _ _ (Disk.fits_free _ ["src"] name _ (by simp) ?_ named ?_))
  · rw [List.singleton_append, Disk.node?_put_other _ _ _ _ (by simpa using Ne.symm apart), arrival_missing]
  · obtain ⟨mode, modified, found⟩ := folder
    obtain ⟨later, kept⟩ := first.folders _ mode modified found
    exact ⟨mode, later, kept⟩

theorem rivals_held :
    (rivals name other).dated ((beside name).place (rivals name other).home) = some ("a".toUTF8, ⟨2, 0⟩) ∧
      (rivals name other).dated ((beside other).place (rivals name other).home) = some ("ccc".toUTF8, ⟨3, 0⟩) ∧
      (rivals name other).dated (Path.place (rivals name other).home ⟨"/downloads/b.ts"⟩) =
        some ("bb".toUTF8, ⟨4, 0⟩) := by
  have held : arrival.dated (Path.place [] ⟨"/downloads/b.ts"⟩) = some ("bb".toUTF8, ⟨4, 0⟩) := by decide
  have staged : Path.place [] ⟨"/downloads/b.ts"⟩ = ["downloads", "b.ts"] := by decide
  have home : (rivals name other).home = [] := rfl
  rw [beside_place named, beside_place named', home, rivals_dated]
  refine ⟨by simp, by simp [apart], ?_⟩
  rw [staged] at held ⊢
  simp [held]

theorem rivals_contest : Contest (rivals name other) [beside other, ⟨"/downloads/b.ts"⟩] (beside name) := by
  have later := arrival_later named named' apart
  have staged : Path.place [] ⟨"/downloads/b.ts"⟩ = ["downloads", "b.ts"] := by decide
  have places : ∀ own, Path.IsName own -> (beside own).place (rivals name other).home = ["src", own] :=
    fun own named => beside_place named _
  have normal : ∀ own, Path.IsName own -> (beside own).Normal := fun own named =>
    ⟨⟨_, beside_components named⟩, _, (Path.join_last ⟨"/src"⟩ _ rfl named).2⟩
  obtain ⟨first, second, third⟩ := rivals_held named named' apart
  refine {
    regular := later.regular
    privileged := later.privileged
    normal := ?_
    apart := ?_
    held := by simp [second, third]
    level := ?_
    clear := ?_
    differ := ?_
    digests := ?_ }
  · have normal' : Path.Normal ⟨"/downloads/b.ts"⟩ := by decide
    simp [normal name named, normal other named', normal']
  · simp only [List.pairwise_cons, List.mem_cons, List.not_mem_nil, or_false, forall_eq_or_imp, forall_eq,
      false_imp_iff, implies_true, List.Pairwise.nil, and_true]
    refine ⟨⟨?_, ?_⟩, ?_⟩ <;> refine Bool.eq_false_iff.2 fun same => ?_ <;>
      have place := Path.place_of_same (rivals name other).home _ _ same
    · rw [places name named, places other named'] at place
      simp [Ne.symm apart] at place
    · rw [places name named] at place
      simpa using place.trans staged
    · rw [places other named'] at place
      simpa using place.trans staged
  · rintro ⟨mode, modified, folder⟩
    simp [Disk.dated, folder] at first
  · rw [places name named]
    intro place above
    have higher : ∀ own, place ≠ ["src", own] := by
      rintro own rfl
      simpa [Location.folder] using above.length_le
    -- Above the destination there are the two directories that were there before.
    have bare : ∀ place ∈ [[], ["src"]], arrival.dated place = none := by decide
    rw [← Disk.dated_eq_none_iff, rivals_dated, Function.update_of_ne (higher name),
      Function.update_of_ne (higher other)]
    exact bare place ((List.mem_inits _ _).2 above)
  · simp only [List.pairwise_cons, List.mem_cons, List.not_mem_nil, or_false, forall_eq_or_imp, forall_eq,
      false_imp_iff, implies_true, List.Pairwise.nil, and_true, Differ, first, second, third, Option.some_inj,
      Prod.mk.injEq]
    refine ⟨⟨?_, ?_⟩, ?_⟩ <;>
    · rintro _ _ _ _ ⟨rfl, rfl⟩ ⟨rfl, rfl⟩
      decide
  · intro content held rival held' digest
    exact List.inj_on_of_nodup_map digests_distinct (rivals_contents name other content held)
      (rivals_contents name other rival held') digest

end

theorem beside_fileName {name : String} (named : Path.IsName name) : (beside name).fileName? = some name :=
  Path.fileName?_of_components _ [.root, .name "src"] name (beside_components named)

theorem copy_there {carrier : Carrier} (stamp : Path.separator ∉ carrier.stamp.toList) {name : String}
    (named : Path.IsName name) (other : String) (number : Nat)
    (there : (rivals name other).node? ((carrier.siblingAt (beside name) "backup" number).place
      (rivals name other).home) ≠ none) : carrier.siblingName (beside name) "backup" number = other := by
  have plain : (beside name).Plain := ⟨_, beside_components named⟩
  rw [carrier.siblingAt_beside stamp "backup" (by simp) _ _ plain ["src"] name (beside_place named _),
    List.singleton_append] at there
  by_contra differs
  have longer := carrier.siblingName_length _ "backup" number name (beside_fileName named)
  refine there ?_
  rw [rivals, Disk.node?_put_other, Disk.node?_put_other, arrival_missing]
  · simpa using differs
  · intro same
    rw [(List.cons.inj (List.cons.inj same).2).1] at longer
    omega

theorem rivals_present {name other : String} (named : Path.IsName name) (named' : Path.IsName other)
    (apart : other ≠ name) : ∃ rival ∈ [beside name, beside other, ⟨"/downloads/b.ts"⟩],
      ((rivals name other).dated (rival.place (rivals name other).home)).isSome := by
  obtain ⟨first, -⟩ := rivals_held named named' apart
  exact ⟨beside name, List.mem_cons_self, Option.isSome_iff_exists.2 ⟨_, first⟩⟩

theorem rivals_won : Contest (rivals "a.ts" "c.ts") [beside "c.ts", ⟨"/downloads/b.ts"⟩] (beside "a.ts") ∧
    Accepted ⟨"s", []⟩ (rivals "a.ts" "c.ts") [beside "c.ts", ⟨"/downloads/b.ts"⟩] (beside "a.ts") [] ∧
    ∃ copies, Decided ⟨"s", []⟩ (rivals "a.ts" "c.ts") [beside "c.ts", ⟨"/downloads/b.ts"⟩] (beside "a.ts")
      (fun front => (bringAll ⟨"s", []⟩ (beside "a.ts") ⟨rivals "a.ts" "c.ts", []⟩ front).disk) copies := by
  have named : Path.IsName "a.ts" := by decide
  have contest : Contest (rivals "a.ts" "c.ts") [beside "c.ts", ⟨"/downloads/b.ts"⟩] (beside "a.ts") :=
    rivals_contest named (by decide) (by decide)
  have accepted : Accepted ⟨"s", []⟩ (rivals "a.ts" "c.ts") [beside "c.ts", ⟨"/downloads/b.ts"⟩] (beside "a.ts")
      [] := by
    refine ⟨by decide +kernel, by decide, fun number there => ?_, by decide +kernel⟩
    have longer := siblingName_length ⟨"s", []⟩ _ "backup" number _ (beside_fileName named)
    rw [copy_there (by decide) named "c.ts" number there] at longer
    exact absurd longer (by decide)
  exact ⟨contest, accepted, newest_wins _ _ _ _ _ [] contest accepted (rivals_present named (by decide) (by decide))⟩

def longName (long : Nat) : String := String.ofList (List.replicate long 'a') ++ ".ts"

theorem longName_chars (long : Nat) : (longName long).toList = List.replicate long 'a' ++ ".ts".toList := by
  rw [longName, String.toList_append, String.toList_ofList]

theorem longName_length (long : Nat) : (longName long).toList.length = long + 3 := by
  rw [longName_chars, List.length_append, List.length_replicate]
  rfl

theorem longName_isName (long : Nat) : Path.IsName (longName long) := by
  refine Path.isName_of_long ?_ (by rw [longName_length]; omega)
  rw [longName_chars, List.mem_append, List.mem_replicate]
  rintro (⟨-, impossible⟩ | inside)
  · cases impossible
  · revert inside
    decide

theorem beside_usable {name : String} (named : Path.IsName name) (whole : Char.ofNat 0 ∉ name.toList)
    (short : name.utf8ByteSize ≤ Disk.longestName) : (beside name).Usable := by
  have relative := (Path.components_name name named).1
  have text : (beside name).text = "/src" ++ "/" ++ name := by
    simp [beside, Path.join, relative, Path.separator]
  refine ⟨?_, fun other among => ?_⟩
  · have bytes : (beside name).text.utf8ByteSize = 5 + name.utf8ByteSize := by
      rw [text, String.utf8ByteSize_append]
      rfl
    have long : Disk.isTooLong (beside name) = false := by
      simp only [Disk.isTooLong, Disk.longestPath, bytes, decide_eq_false_iff_not]
      simp only [Disk.longestName] at short
      omega
    have chars : Char.ofNat 0 ∉ (beside name).text.toList := by
      rw [text, String.toList_append, List.mem_append]
      exact not_or.2 ⟨by decide, whole⟩
    have filled : (beside name).text ≠ "" := by
      intro empty
      simp [empty] at bytes
      omega
    simp [Disk.refusal?, filled, long, chars]
  · have few : other = "src" ∨ other = name := by
      simpa [eq_comm, Path.names, beside_components named, Component.name?] using among
    rcases few with rfl | rfl
    · decide
    · exact short

theorem longName_usable : ∀ p ∈ [beside (longName 248), beside "c.ts", ⟨"/downloads/b.ts"⟩], p.Usable := by
  have whole : Char.ofNat 0 ∉ (longName 248).toList := by
    rw [longName_chars, List.mem_append, List.mem_replicate]
    decide
  have others : ∀ p ∈ [beside "c.ts", ⟨"/downloads/b.ts"⟩], p.Usable := by decide
  exact List.forall_mem_cons.2 ⟨beside_usable (longName_isName 248) whole (by decide +kernel), others⟩

theorem oldest_kept {name other : String} (named : Path.IsName name) (named' : Path.IsName other)
    (apart : other ≠ name) (usable : ∀ p ∈ [beside name, beside other, ⟨"/downloads/b.ts"⟩], p.Usable)
    (carrier : Carrier) (refused : ∀ copied, (rivals name other).copy (beside name)
      (carrier.sibling (rivals name other) (beside name) "backup") ≠ .ok copied) (ledger : Ledger)
    (copies : List Path) :
    ¬ Decided carrier (rivals name other) [beside other, ⟨"/downloads/b.ts"⟩] (beside name)
      (fun front => (carrier.bringAll (beside name) ⟨rivals name other, ledger⟩ front).disk) copies := by
  have contest := rivals_contest named named' apart
  obtain ⟨first, second, third⟩ := rivals_held named named' apart
  have once : ∀ source ∈ [beside other, ⟨"/downloads/b.ts"⟩], ∀ own time,
      (rivals name other).dated (source.place (rivals name other).home) = some (own, time) ->
      "a".toUTF8 ≠ own -> time.order ⟨2, 0⟩ = .gt -> ∀ site : Site, site.disk = rivals name other ->
      (carrier.bring (beside name) site source).disk = rivals name other := by
    rintro source known own time held differs newer ⟨_, ledger⟩ rfl
    refine bring_refused (contest.free usable known) refused first held ?_ newer
    refine mt (contest.digests ?_ ?_) differs
    · exact ⟨_, by rw [Disk.contents_eq_map, first]; rfl⟩
    · exact ⟨_, by rw [Disk.contents_eq_map, held]; rfl⟩
  have before := once _ (by simp) _ _ second (by decide) (by decide) ⟨_, ledger⟩ rfl
  have unchanged : (carrier.bringAll (beside name) ⟨rivals name other, ledger⟩
      [beside other, ⟨"/downloads/b.ts"⟩]).disk = rivals name other :=
    once _ (by simp) _ _ third (by decide) (by decide) _ before
  intro decided
  obtain ⟨-, -, content, modified, -, here, newest⟩ := decided.won
  simp only [unchanged] at here
  cases here.symm.trans first
  exact newest ⟨"/downloads/b.ts"⟩ (by simp) _ _ third (by decide)

theorem not_newest_always_wins :
    (¬ ∀ (carrier : Carrier) (d : Disk) (ledger : Ledger) (sources : List Path) (destination : Path),
      Contest d sources destination -> (∃ rival ∈ destination :: sources, (d.dated (rival.place d.home)).isSome) ->
      (∀ p ∈ destination :: sources, p.Usable) -> Path.separator ∉ carrier.stamp.toList ->
      ∃ copies, Decided carrier d sources destination
        (fun front => (carrier.bringAll destination ⟨d, ledger⟩ front).disk) copies) ∧
    (¬ ∀ (carrier : Carrier) (d : Disk) (ledger : Ledger) (sources : List Path) (destination : Path),
      Contest d sources destination -> (∃ rival ∈ destination :: sources, (d.dated (rival.place d.home)).isSome) ->
      (∀ p ∈ destination :: sources, p.Usable) ->
      (∀ number < sources.length, (carrier.siblingAt destination "backup" number).Usable) ->
      ∃ copies, Decided carrier d sources destination
        (fun front => (carrier.bringAll destination ⟨d, ledger⟩ front).disk) copies) ∧
    ¬ ∀ (carrier : Carrier) (d : Disk) (ledger : Ledger) (sources : List Path) (destination : Path)
      (taken : List Nat), Contest d sources destination -> Accepted carrier d sources destination taken ->
      ∀ source ∈ sources,
        (carrier.bringAll destination ⟨d, ledger⟩ sources).disk.node? (source.place d.home) = none := by
  refine ⟨fun always => ?_, fun always => ?_, fun always => ?_⟩
  · have long := longName_isName 248
    have short : Path.IsName "c.ts" := by decide
    have apart : "c.ts" ≠ longName 248 := by
      intro same
      have length := longName_length 248
      rw [← same] at length
      cases length
    obtain ⟨copies, decided⟩ := always ⟨"s", []⟩ (rivals (longName 248) "c.ts") [] _ _
      (rivals_contest long short apart) (rivals_present long short apart) longName_usable (by decide)
    refine oldest_kept long short apart longName_usable _ (fun copied done => ?_) _ copies decided
    refine sibling_refused _ (by decide) _ ((rivals_contest long short apart).normal _ List.mem_cons_self)
      (beside_fileName long) ?_ _ copied done
    rw [longName_length]
    decide
  · have named : Path.IsName "a.ts" := by decide
    have short : Path.IsName "c.ts" := by decide
    have apart : "c.ts" ≠ "a.ts" := by decide
    have usable : ∀ p ∈ [beside "a.ts", beside "c.ts", ⟨"/downloads/b.ts"⟩], p.Usable := by decide +kernel
    obtain ⟨copies, decided⟩ := always ⟨"x/y", []⟩ (rivals "a.ts" "c.ts") [] _ _
      (rivals_contest named short apart) (rivals_present named short apart) usable (by decide +kernel)
    refine oldest_kept named short apart usable _ (fun copied done => ?_) _ copies decided
    have refused : ((rivals "a.ts" "c.ts").copy (beside "a.ts") (Carrier.sibling ⟨"x/y", []⟩ (rivals "a.ts" "c.ts")
        (beside "a.ts") "backup")).toOption.isNone = true := by decide +kernel
    rw [done] at refused
    cases refused
  · have named : Path.IsName "a.ts" := by decide
    have accepted : Accepted ⟨"s", []⟩ (rivals "a.ts" "a.backup.s.ts")
        [beside "a.backup.s.ts", ⟨"/downloads/b.ts"⟩] (beside "a.ts") [0] := by
      refine ⟨by decide +kernel, by decide, fun number there => ?_, by decide +kernel⟩
      have first : Carrier.siblingName ⟨"s", []⟩ (beside "a.ts") "backup" 0 = "a.backup.s.ts" := by decide +kernel
      rw [← copy_there (by decide) named "a.backup.s.ts" number there] at first
      exact List.mem_singleton.2 (siblingName_injective _ _ _ first).symm
    have left := always ⟨"s", []⟩ (rivals "a.ts" "a.backup.s.ts") [] _ _ [0]
      (rivals_contest named (by decide) (by decide)) accepted (beside "a.backup.s.ts") List.mem_cons_self
    revert left
    decide +kernel

end Carrier

end Stowage

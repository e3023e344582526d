import Stowage.Proofs.Survey.Covering

set_option autoImplicit false

namespace Stowage

theorem Classification.kept_of_extension (content : ByteArray) (current : String) (threshold : Binary64)
    (other : current ≠ plain) (other' : current ≠ untyped) :
    (ofContent content current).isAccepted threshold = false := by
  unfold ofContent
  split
  · exact isAccepted_unreadable current threshold
  · split
    · simp [isAccepted, changesExtension, ofText, verdict, other, other']
    · exact isAccepted_unreadable current threshold

theorem Classification.current_ofContent (content : ByteArray) (current : String) :
    (ofContent content current).current = current := by
  unfold ofContent
  split
  · rfl
  · split <;> rfl

theorem Path.extension_of_last {p q : Path} (same : p.components.getLast? = q.components.getLast?) :
    p.extension = q.extension := by
  unfold extension extension? fileName?
  rw [same]

theorem Path.extension_of_fileName {p : Path} {name : String} (named : p.fileName? = some name)
    (isName : IsName name) : p.extension = (Path.mk name).extension := by
  obtain ⟨-, single⟩ := components_name name isName
  unfold extension extension?
  rw [named]
  simp [fileName?, single]

/-- A layout whose destinations lie outside of the staging directory, each under the extension of what goes
there or under one that is never corrected. -/
structure Layout.Steady (layout : Layout) : Prop where
  named : ∀ row ∈ layout.destinations, row.2.components ≠ []
  alike : ∀ row ∈ layout.destinations, row.2.extension = (Path.mk row.1).extension ∨
    row.2.extension = Classification.withMarkup
  outside : ∀ row ∈ layout.destinations, ¬ layout.stagingDir.components <+: row.2.components
  fallback : ¬ layout.stagingDir.components <+: layout.fallbackDir.components
  fallback' : ¬ layout.fallbackDir.components <+: layout.stagingDir.components

theorem Layout.steady_usual : Layout.usual.Steady := by
  have rows : ∀ row ∈ Layout.usual.destinations, row.2.components ≠ [] ∧
      (row.2.extension = (Path.mk row.1).extension ∨ row.2.extension = Classification.withMarkup) ∧
      ¬ Layout.usual.stagingDir.components <+: row.2.components := by decide +kernel
  exact ⟨fun row inside => (rows row inside).1, fun row inside => (rows row inside).2.1,
    fun row inside => (rows row inside).2.2, by decide +kernel, by decide +kernel⟩

namespace Project

/-- Content that keeps its extension where it is. -/
def Settled (project : Project) (path : Path) (content : ByteArray) : Prop :=
  (Classification.ofContent content path.extension).isAccepted project.layout.threshold = false

instance (project : Project) (path : Path) (content : ByteArray) : Decidable (project.Settled path content) :=
  inferInstanceAs (Decidable (_ = _))

theorem settled_of_extension (project : Project) (path : Path) (content : ByteArray)
    (ends : path.extension = Classification.withMarkup ∨ path.extension = "") :
    project.Settled path content := by
  unfold Settled
  rcases ends with ends | ends <;> rw [ends] <;>
    exact Classification.kept_of_extension content _ _ (by decide) (by decide)

theorem Settled.congr {project : Project} {path other : Path} {content : ByteArray}
    (same : other.components = path.components) (settled : project.Settled path content) :
    project.Settled other content := by
  unfold Settled
  rw [Path.extension_of_last (congrArg List.getLast? same)]
  exact settled

theorem not_below_of_above {folder p q : Path} (outside : ¬ folder.components <+: p.components)
    (above : q.components.dropLast <+: p.components) : ¬ folder.Below q := by
  rintro ⟨names, filled, spelt⟩
  obtain ⟨front, last, rfl⟩ := (List.eq_nil_or_concat' names).resolve_left filled
  rw [spelt, List.map_append, ← List.append_assoc, List.map_singleton, List.dropLast_concat] at above
  exact outside ((List.prefix_append _ _).trans above)

theorem withExtension_settled {project : Project} (record : FileRecord) (content : ByteArray)
    (verdict : record.classification = .ofContent content record.path.extension)
    (accepted : record.classification.isAccepted project.layout.threshold = true) (path : Path)
    (plain : path.Plain) (outside : ¬ (project.folderOf .staged).components <+: path.components) :
    project.Settled (path.withExtension record.classification.suggested) content ∧
      ¬ (project.folderOf .staged).Below (path.withExtension record.classification.suggested) := by
  rw [verdict] at accepted ⊢
  rw [suggested_of_accepted content _ _ accepted]
  exact ⟨project.settled_of_extension _ content
      (path.extension_withExtension plain _ (by decide) (by decide) (by decide)),
    not_below_of_above outside (path.withExtension_above plain _ (by decide) (by decide))⟩

section

variable {project : Project} (orderly : project.Orderly) (steady : project.layout.Steady)

include orderly

theorem not_staged_of_inPlace (path : Path) (below : (project.folderOf .inPlace).Below path) :
    ¬ (project.folderOf .staged).components <+: path.components := by
  obtain ⟨names, -, spelt⟩ := below
  intro within
  have first : (project.folderOf .inPlace).components <+: path.components := ⟨_, spelt.symm⟩
  simp only [folderOf] at within first
  rw [orderly.root.join orderly.staging] at within
  rw [orderly.root.join orderly.source] at first
  rcases List.prefix_or_prefix_of_prefix within first with nested | nested
  · exact orderly.apart ((List.prefix_append_right_inj _).1 nested)
  · exact orderly.apart' ((List.prefix_append_right_inj _).1 nested)

include steady

theorem destinationFor_outside (name : String) (named : Path.IsName name) :
    (project.layout.destinationFor name).components ≠ [] ∧
      ((project.layout.destinationFor name).extension = (Path.mk name).extension ∨
        (project.layout.destinationFor name).extension = Classification.withMarkup) ∧
      ¬ project.layout.stagingDir.components <+: (project.layout.destinationFor name).components := by
  unfold Layout.destinationFor
  cases known : project.layout.destinations.lookup nameOrder name with
  | some path =>
    obtain ⟨row, inside, equal, rfl⟩ := Table.mem_of_lookup nameOrder name _ path known
    obtain rfl := (Component.compareTexts_eq_iff name row.1).1 equal
    exact ⟨steady.named row inside, steady.alike row inside, steady.outside row inside⟩
  | none =>
    -- A name that is not listed is kept in the fallback directory.
    obtain ⟨-, spelt⟩ := orderly.fallback.join_components named
    obtain ⟨-, single⟩ := Path.components_name name named
    rw [Option.getD_none, spelt]
    refine ⟨by simp, .inl (Path.extension_of_last ?_), fun within => ?_⟩
    · rw [spelt, single, List.getLast?_concat]
      rfl
    · rcases List.prefix_or_prefix_of_prefix within (List.prefix_append _ _) with nested | nested
      · exact steady.fallback nested
      · exact steady.fallback' nested

theorem mapped_outside (name : String) (named : Path.IsName name) :
    ((project.root.join (project.layout.destinationFor name)).extension = (Path.mk name).extension ∨
        (project.root.join (project.layout.destinationFor name)).extension = Classification.withMarkup) ∧
      ¬ (project.folderOf .staged).components <+:
        (project.root.join (project.layout.destinationFor name)).components := by
  have joined := orderly.root.join (destinationFor_inner project orderly name named)
  obtain ⟨filled, ends, outside⟩ := destinationFor_outside orderly steady name named
  have last : (project.root.join (project.layout.destinationFor name)).extension =
      (project.layout.destinationFor name).extension := by
    apply Path.extension_of_last
    rw [joined, List.getLast?_append_of_ne_nil _ filled]
  refine ⟨by rwa [last], fun within => outside ?_⟩
  simp only [folderOf] at within
  rw [orderly.root.join orderly.staging, joined] at within
  exact (List.prefix_append_right_inj _).1 within

theorem staged_settled (record : FileRecord) (content : ByteArray)
    (verdict : record.classification = .ofContent content record.path.extension)
    (standing : record.standing = .staged) (below : (project.folderOf .staged).Below record.path)
    (destination : Path) (reason : Reason)
    (known : destinationOf project.root project.layout record = some (destination, reason)) :
    project.Settled destination content ∧ ¬ (project.folderOf .staged).Below destination := by
  simp only [destinationOf, standing, Option.some.injEq, Prod.mk.injEq] at known
  obtain ⟨rfl, -⟩ := known
  obtain ⟨name, named, isName⟩ := below.fileName?
  have fileName : record.fileName = name := by simp [FileRecord.fileName, Path.fileName, named]
  have plain := orderly.root.join_plain (destinationFor_inner project orderly name isName)
  obtain ⟨ends, outside⟩ := mapped_outside orderly steady name isName
  rw [← Path.extension_of_fileName named isName] at ends
  rw [fileName]
  generalize project.root.join (project.layout.destinationFor name) = mapped at plain ends outside
  have apart : ¬ (project.folderOf .staged).Below mapped :=
    not_below_of_above outside (List.dropLast_prefix _)
  split
  next accepted =>
    unfold correctedDestination
    split
    · split
      next separated =>
        rw [verdict] at accepted separated
        rw [suggested_of_accepted content _ _ accepted] at separated
        exact absurd separated (by decide)
      · exact withExtension_settled record content verdict accepted mapped plain outside
    next differs =>
      -- The layout gives another extension than the file has, one that is never corrected.
      have current : record.classification.current = record.path.extension := by
        rw [verdict]
        exact Classification.current_ofContent content _
      rw [current] at differs
      exact ⟨project.settled_of_extension _ content (.inl (ends.resolve_left differs)), apart⟩
  next rejected =>
    refine ⟨?_, apart⟩
    rcases ends with same | markup
    · rw [verdict, ← same] at rejected
      exact Bool.eq_false_iff.2 rejected
    · exact project.settled_of_extension _ content (.inl markup)

theorem destinationOf_settled (record : FileRecord) (content : ByteArray)
    (verdict : record.classification = .ofContent content record.path.extension)
    (below : (project.folderOf record.standing).Below record.path) (destination : Path) (reason : Reason)
    (known : destinationOf project.root project.layout record = some (destination, reason)) :
    project.Settled destination content ∧ ¬ (project.folderOf .staged).Below destination := by
  cases standing : record.standing with
  | inPlace =>
    rw [standing] at below
    simp only [destinationOf, standing] at known
    split at known
    next accepted =>
      cases known
      exact withExtension_settled record content verdict accepted record.path
        ((folderOf_plain orderly .inPlace).below below) (not_staged_of_inPlace orderly record.path below)
    · cases known
  | staged =>
    rw [standing] at below
    exact staged_settled orderly steady record content verdict standing below destination reason known

theorem destinationOf_unsettled (record : FileRecord) (content : ByteArray)
    (verdict : record.classification = .ofContent content record.path.extension)
    (below : (project.folderOf record.standing).Below record.path)
    (unsettled : record.standing = .staged ∨ ¬ project.Settled record.path content) :
    ∃ destination reason, destinationOf project.root project.layout record = some (destination, reason) ∧
      destination.same record.path = false := by
  have due : ∃ destination reason,
      destinationOf project.root project.layout record = some (destination, reason) := by
    unfold destinationOf
    rw [verdict]
    cases standing : record.standing with
    | staged => exact ⟨_, _, rfl⟩
    | inPlace =>
      simp only [standing, reduceCtorEq, false_or, Settled, Bool.not_eq_false] at unsettled
      exact ⟨_, _, if_pos unsettled⟩
  obtain ⟨destination, reason, known⟩ := due
  refine ⟨destination, reason, known, ?_⟩
  obtain ⟨settled, outside⟩ := destinationOf_settled orderly steady record content verdict below destination
    reason known
  by_contra same
  have spelt : destination.components = record.path.components := by simpa [Path.same] using same
  rcases unsettled with staged | unsettled
  · rw [staged] at below
    obtain ⟨names, filled, own⟩ := below
    exact outside ⟨names, filled, spelt.trans own⟩
  · exact unsettled (settled.congr spelt.symm)

end

end Project

end Stowage

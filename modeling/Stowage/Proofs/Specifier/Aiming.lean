import Stowage.Proofs.Imports.Splicing
import Stowage.Proofs.Path.Keeping
import Stowage.Proofs.Specifier.Anchoring
import Stowage.Proofs.Specifier.Planning

set_option autoImplicit false

namespace Stowage

namespace Path

theorem normalizeWithin_congr {root p q : Path} (absolute : root.isAbsolute = true) (same : p.same q = true) :
    root.normalizeWithin p = root.normalizeWithin q := by
  have below := below?_congr absolute same
  unfold normalizeWithin
  cases known : root.below? p <;> cases known' : root.below? q <;> simp_all

theorem join_congr {base other rest : Path} (absolute : base.isAbsolute = true)
    (spelt : base.components = other.components) (relative : rest.isAbsolute = false) :
    (base.join rest).same (other.join rest) = true := by
  have absolute' : other.isAbsolute = true := isAbsolute_congr spelt ▸ absolute
  unfold same
  rw [components_join_spelled (filled_of_isAbsolute absolute) relative,
    components_join_spelled (filled_of_isAbsolute absolute') relative, spelt, beq_self_eq_true]

end Path

namespace Anchors

open Specifier (isRelative isAbsolute_of_isRelative)

theorem strategyFor_cases {anchors : Anchors} {specifier : String} {strategy : Strategy}
    (recognised : anchors.strategyFor specifier = some strategy) (unaliased : strategy ≠ .aliasPrefixed) :
    strategy = .relative ∧ isRelative specifier = true ∨
      strategy = .rootRelative ∧ (Path.mk specifier).isAbsolute = true ∧
        ∀ entry ∈ anchors.aliases, ¬ entry.1.toList <+: specifier.toList := by
  unfold strategyFor at recognised
  split at recognised
  next dotted =>
    cases recognised
    exact .inl ⟨rfl, dotted⟩
  · split at recognised
    · cases recognised
      exact absurd rfl unaliased
    next free =>
      split at recognised
      next rooted =>
        cases recognised
        refine .inr ⟨rfl, ?_, fun entry member starts => free ?_⟩
        · obtain ⟨rest, chars⟩ := List.isPrefixOf_iff_prefix.1 rooted
          simp [Path.isAbsolute, ← chars]
        · exact List.any_eq_true.2 ⟨entry, member, List.isPrefixOf_iff_prefix.2 starts⟩
      · cases recognised

theorem resolve_congr {anchors : Anchors} (absolute : anchors.root.isAbsolute = true) {origin other : Path}
    (plain : origin.Plain) (same : origin.same other = true) (specifier : String) (isFile : Path -> Bool) :
    anchors.resolve isFile specifier origin = anchors.resolve isFile specifier other := by
  unfold resolve anchor
  by_cases dotted : isRelative specifier = true
  · rw [if_pos dotted, if_pos dotted]
    have parents : origin.parent?.map Path.components = other.parent?.map Path.components := by
      rw [plain.parent_components, (plain.congr same).parent_components, eq_of_beq same]
    cases parent : origin.parent? with
    | none =>
      cases parent' : other.parent? with
      | none => rfl
      | some directory => simp [parent, parent'] at parents
    | some directory =>
      cases parent' : other.parent? with
      | none => simp [parent, parent'] at parents
      | some directory' =>
        rw [parent, parent', Option.map_some, Option.map_some, Option.some.injEq] at parents
        have within := (plain.parent parent []).1.isAbsolute
        have joined := Path.join_congr within parents (isAbsolute_of_isRelative dotted)
        simp only [Option.map_some, Path.normalizeWithin_congr absolute joined]
  · rw [if_neg dotted, if_neg dotted]

end Anchors

namespace Specifier

section

variable {anchors : Anchors} (plain : anchors.root.Plain) {target : Path} (imported : anchors.root.Under target)
  (dot : target.stem? ≠ some ".") (dots : target.stem? ≠ some "..") {keepExtension : Bool} {replacement : String}

include plain imported dot dots

theorem rooted_read (within : anchors.root.Within anchors.sourceRoot)
    (free : ∀ entry ∈ anchors.aliases, ¬ entry.1.toList <+: replacement.toList)
    (known : rooted? anchors.sourceRoot target keepExtension = some replacement) (origin : Path) :
    ∃ names : List String, anchors.root.components ++ names.map .name = meant target keepExtension ∧
      ∀ isFile, anchors.resolve isFile replacement origin =
        anchors.settle isFile .rootRelative (anchors.root.joinNames names) := by
  obtain ⟨rest, candidate, rfl, -, -, normal, same⟩ := rooted?_returns plain imported dot dots within known
  obtain ⟨names, named, rfl, -⟩ := Path.normalizeWithin_names plain.isAbsolute normal
  rw [Path.components_joinNames _ named] at same
  exact ⟨names, same, Anchors.resolve_eq_settle (anchor_rooted free origin) normal⟩

variable {origin : Path} (importing : anchors.root.Under origin)

include importing

theorem relative_read (dotted : isRelative replacement = true)
    (known : relative? origin target keepExtension = some replacement) :
    ∃ names : List String, anchors.root.components ++ names.map .name = meant target keepExtension ∧
      ∀ isFile, anchors.resolve isFile replacement origin =
        anchors.settle isFile .relative (anchors.root.joinNames names) := by
  obtain ⟨directory, found, parent, normal, same⟩ := relative?_returns plain imported dot dots importing known
  obtain ⟨names, named, rfl, -⟩ := Path.normalizeWithin_names plain.isAbsolute normal
  rw [Path.components_joinNames _ named] at same
  have anchored : anchors.anchor replacement origin = some (.relative, directory, replacement) := by
    rw [Anchors.anchor, if_pos dotted, parent, Option.map_some]
  exact ⟨names, same, Anchors.resolve_eq_settle anchored normal⟩

theorem replacement_read (within : anchors.root.Within anchors.sourceRoot) {strategy read : Strategy}
    (known : replacementFor strategy anchors.sourceRoot origin target keepExtension = some replacement)
    (recognised : anchors.strategyFor replacement = some read) (unaliased : read ≠ .aliasPrefixed) :
    ∃ names : List String, anchors.root.components ++ names.map .name = meant target keepExtension ∧
      ∀ isFile, anchors.resolve isFile replacement origin =
        anchors.settle isFile read (anchors.root.joinNames names) := by
  rcases Anchors.strategyFor_cases recognised unaliased with ⟨rfl, dotted⟩ | ⟨rfl, absolute, free⟩ <;>
    rcases replacementFor_cases known with rooted | relative
  · -- What starts with a separator is not taken for relative.
    obtain ⟨rest, -, rfl, -⟩ := rooted?_returns plain imported dot dots within rooted
    simpa [Path.isAbsolute, Path.separator] using isAbsolute_of_isRelative dotted
  · exact relative_read plain imported dot dots importing dotted relative
  · exact rooted_read plain imported dot dots within free rooted origin
  · simp [relative?_unrooted relative] at absolute

end

/-- An import has to be written anew: what it names was moved, or its file was and the import is relative. -/
def Due (strategy : Strategy) (file origin target moved : Path) : Prop :=
  moved.same target = false ∨ strategy = .relative ∧ origin.same file = false

instance (strategy : Strategy) (file origin target moved : Path) : Decidable (Due strategy file origin target moved) :=
  inferInstanceAs (Decidable (_ ∨ _))

/-- What a plan knows of an import: its file is at `origin`, what it names is at `moved`, and no other file that is at
`origin` has an import by the same specifier. -/
structure Tended (edges : List Edge) (fates : Fates) (edge : Edge) (origin target moved : Path) : Prop where
  member : edge ∈ edges
  written : edge.strategy ≠ .aliasPrefixed
  names : edge.target = some target
  importing : originNow fates edge.file = some origin
  imported : targetNow fates target = some moved
  alone : ∀ other ∈ edges, other.raw = edge.raw -> ∀ there, originNow fates other.file = some there ->
    origin.same there = true -> other.file = edge.file ∧ other.strategy = edge.strategy ∧ other.target = edge.target

section

variable {edges : List Edge} {fates : Fates} {sourceRoot origin target moved : Path} {edge : Edge}
  (tended : Tended edges fates edge origin target moved)

include tended

theorem Tended.mem_calls_iff {edit : Edit} (raw : edit.raw = edge.raw) :
    edit ∈ calls edges fates sourceRoot origin ↔
      Due edge.strategy edge.file origin target moved ∧ edit.replacement ≠ edge.raw ∧
        replacementFor edge.strategy sourceRoot origin moved (keepsExtension edge.raw target) =
          some edit.replacement := by
  rw [Specifier.mem_calls_iff]
  constructor
  · rintro ⟨other, member, here, named, there, stale, same, raw', differs, computed⟩
    have own := (originNow_eq_some_iff _ _ _).2 stale.importing
    have known := (targetNow_eq_some_iff _ _ _).2 stale.imported
    have equal : other.raw = edge.raw := raw'.symm.trans raw
    -- The other edge is of the same file and names the same, and so the same is known of it.
    obtain ⟨file, strategy, names⟩ := tended.alone other member equal here own same
    obtain rfl : origin = here := Option.some.inj (tended.importing.symm.trans (file ▸ own))
    obtain rfl : target = named := Option.some.inj (tended.names.symm.trans (names.symm.trans stale.names))
    obtain rfl : moved = there := Option.some.inj (tended.imported.symm.trans known)
    have due := stale.due
    rw [strategy, file] at due
    rw [strategy, equal] at computed
    exact ⟨due, equal ▸ differs, computed⟩
  · rintro ⟨due, differs, computed⟩
    exact ⟨edge, tended.member, origin, target, moved, ⟨tended.written, tended.names,
      (originNow_eq_some_iff _ _ _).1 tended.importing, (targetNow_eq_some_iff _ _ _).1 tended.imported, due⟩,
      by simp [Path.same], raw, differs, computed⟩

theorem Tended.written_of_due (due : Due edge.strategy edge.file origin target moved) :
    Stowage.written (collected (calls edges fates sourceRoot origin)) edge.raw =
      (replacementFor edge.strategy sourceRoot origin moved (keepsExtension edge.raw target)).getD edge.raw := by
  unfold Stowage.written
  rw [collected_find?]
  cases found : (calls edges fates sourceRoot origin).find? fun edit => edit.raw == edge.raw with
  | some edit =>
    have raw : edit.raw = edge.raw := by simpa using List.find?_some found
    obtain ⟨-, -, computed⟩ := (tended.mem_calls_iff raw).1 (List.mem_of_find?_eq_some found)
    rw [computed]
    rfl
  | none =>
    cases computed : replacementFor edge.strategy sourceRoot origin moved (keepsExtension edge.raw target) with
    | none => rfl
    | some replacement =>
      -- Nothing is called for only if the specifier is the one that stands there.
      by_cases differs : replacement = edge.raw
      · exact differs.symm
      · have called := (@Tended.mem_calls_iff _ _ sourceRoot _ _ _ _ tended ⟨edge.raw, replacement⟩ rfl).2
          ⟨due, differs, computed⟩
        simpa using List.find?_eq_none.1 found _ called

theorem Tended.written_of_not_due (settled : ¬ Due edge.strategy edge.file origin target moved) :
    Stowage.written (collected (calls edges fates sourceRoot origin)) edge.raw = edge.raw := by
  unfold Stowage.written
  rw [collected_find?]
  cases found : (calls edges fates sourceRoot origin).find? fun edit => edit.raw == edge.raw with
  | none => rfl
  | some edit =>
    have raw : edit.raw = edge.raw := by simpa using List.find?_some found
    exact absurd ((tended.mem_calls_iff raw).1 (List.mem_of_find?_eq_some found)).1 settled

end

end Specifier

end Stowage

import Mathlib.Data.List.Nodup
import Mathlib.Data.List.TakeWhile
import Stowage.Proofs.Path.Places
import Stowage.Specifier.Basic

set_option autoImplicit false

namespace Stowage

def Resolution.strategy? : Resolution -> Option Strategy
  | resolved strategy _ => some strategy
  | missing strategy _ => some strategy
  | notAttempted => none

namespace Anchors

open Specifier (isRelative after?)

/-- The specifier starts with this alias, and with no longer one. -/
structure Longest (aliases : List (String × Path)) (specifier : String) (entry : String × Path) : Prop where
  known : entry ∈ aliases
  starts : entry.1.toList <+: specifier.toList
  longest : ∀ other ∈ aliases, other.1.toList <+: specifier.toList -> other.1.utf8ByteSize ≤ entry.1.utf8ByteSize

/-- A specifier in a file is read by this strategy: from the directory `base`, what is left of it is `rest`. -/
inductive Anchored (root : Path) (layout : Layout) (specifier : String) (origin : Path) :
    Strategy -> Path -> String -> Prop
  | relative {directory : Path} (dotted : isRelative specifier = true) (parent : origin.parent? = some directory) :
    Anchored root layout specifier origin .relative directory specifier
  | aliased {entry : String × Path} {slashes rest : List Char} (dotless : isRelative specifier = false)
    (longest : Longest layout.aliases specifier entry)
    (split : specifier.toList = entry.1.toList ++ (slashes ++ rest)) (cut : ∀ c ∈ slashes, c = Path.separator)
    (solid : rest.head? ≠ some Path.separator) :
    Anchored root layout specifier origin .aliasPrefixed (root.join entry.2) (String.ofList rest)
  | rooted {rest : List Char} (dotless : isRelative specifier = false)
    (free : ∀ entry ∈ layout.aliases, ¬ entry.1.toList <+: specifier.toList)
    (split : specifier.toList = Path.separator :: rest) :
    Anchored root layout specifier origin .rootRelative (root.join layout.sourceDir) (String.ofList rest)

def Unknown (extensions : List String) (candidate : Path) : Prop :=
  ∀ extension ∈ extensions, candidate.extension? ≠ some extension

/-- The first file among the names that a candidate may stand for. -/
inductive Found (isFile : Path -> Bool) (extensions : List String) (candidate : Path) : Path -> Prop
  | extended {before after : List String} {extension : String} (unknown : Unknown extensions candidate)
    (split : extensions = before ++ extension :: after)
    (file : isFile (candidate.append ("." ++ extension)) = true)
    (first : ∀ earlier ∈ before, isFile (candidate.append ("." ++ earlier)) = false) :
    Found isFile extensions candidate (candidate.append ("." ++ extension))
  | bare (file : isFile candidate = true) (first : Unknown extensions candidate ->
      ∀ extension ∈ extensions, isFile (candidate.append ("." ++ extension)) = false) :
    Found isFile extensions candidate candidate

theorem after?_eq_some_iff (start text rest : List Char) : after? start text = some rest ↔ text = start ++ rest := by
  unfold after?
  constructor
  · intro cut
    split at cut
    next starts =>
      obtain ⟨more, rfl⟩ := List.isPrefixOf_iff_prefix.1 starts
      rw [List.drop_left] at cut
      rw [Option.some.inj cut]
    · cases cut
  · rintro rfl
    simp

theorem aliasAnchor_eq (specifier : String) (aliases : List (String × Path)) : aliasAnchor specifier aliases =
    (aliases.find? fun entry => entry.1.toList.isPrefixOf specifier.toList).map fun entry =>
      (entry.2, String.ofList ((specifier.toList.drop entry.1.toList.length).dropWhile (· == Path.separator))) := by
  induction aliases with
  | nil => rfl
  | cons entry others ih =>
    unfold aliasAnchor after?
    by_cases starts : entry.1.toList.isPrefixOf specifier.toList = true <;> simp [starts, ih]

section

variable (layout : Layout) (specifier : String)

theorem longestAliases_sorted :
    layout.longestAliases.Pairwise fun a b => b.1.utf8ByteSize ≤ a.1.utf8ByteSize := by
  unfold Layout.longestAliases
  let longer : String × Path -> String × Path -> Bool := fun a b => b.1.utf8ByteSize ≤ a.1.utf8ByteSize
  have trans : ∀ a b c, longer a b = true -> longer b c = true -> longer a c = true := by
    intro a b c first second
    simp only [longer, decide_eq_true_eq] at first second ⊢
    omega
  have total : ∀ a b, (longer a b || longer b a) = true := by
    intro a b
    simp only [longer, Bool.or_eq_true, decide_eq_true_eq]
    omega
  simpa [longer] using List.pairwise_mergeSort trans total layout.aliases

theorem longest_of_find? {entry : String × Path}
    (found : (layout.longestAliases.find? fun entry => entry.1.toList.isPrefixOf specifier.toList) = some entry) :
    Longest layout.aliases specifier entry := by
  obtain ⟨starts, before, after, split, skipped⟩ := List.find?_eq_some_iff_append.1 found
  have sorted := longestAliases_sorted layout
  rw [split, List.pairwise_append, List.pairwise_cons] at sorted
  have members : ∀ other, other ∈ layout.aliases ↔ other ∈ before ++ entry :: after := by
    intro other
    rw [← split]
    exact List.mem_mergeSort.symm
  refine ⟨(members entry).2 (by simp), List.isPrefixOf_iff_prefix.1 starts, fun other known starts' => ?_⟩
  rcases List.mem_append.1 ((members other).1 known) with early | late
  · -- What is tried earlier does not start the specifier.
    have free := skipped other early
    rw [List.isPrefixOf_iff_prefix.2 starts'] at free
    cases free
  · rcases List.mem_cons.1 late with rfl | later
    · exact Nat.le_refl _
    · exact sorted.2.1.1 other later

theorem Longest.name_unique {aliases : List (String × Path)} {specifier : String} {entry other : String × Path}
    (first : Longest aliases specifier entry) (second : Longest aliases specifier other) : entry.1 = other.1 := by
  have level := Nat.le_antisymm (second.longest _ first.known first.starts)
    (first.longest _ second.known second.starts)
  have bytes : ∀ a b : String, a.toList <+: b.toList -> a.utf8ByteSize = b.utf8ByteSize -> a = b := by
    rintro a b ⟨rest, whole⟩ same
    have grown : b = a ++ String.ofList rest := by
      apply String.toList_inj.1
      simp [whole]
    rw [grown, String.utf8ByteSize_append] at same
    have none : String.ofList rest = "" := by
      rw [← String.utf8ByteSize_eq_zero_iff]
      omega
    rw [grown, none, String.append_empty]
  rcases List.prefix_or_prefix_of_prefix first.starts second.starts with shorter | shorter
  · exact bytes _ _ shorter level
  · exact (bytes _ _ shorter level.symm).symm

theorem find?_eq_none_iff :
    (layout.longestAliases.find? fun entry => entry.1.toList.isPrefixOf specifier.toList) = none ↔
      ∀ entry ∈ layout.aliases, ¬ entry.1.toList <+: specifier.toList := by
  rw [List.find?_eq_none]
  constructor
  · intro free entry known starts
    exact free entry (List.mem_mergeSort.2 known) (List.isPrefixOf_iff_prefix.2 starts)
  · intro free entry known starts
    exact free entry (List.mem_mergeSort.1 known) (List.isPrefixOf_iff_prefix.1 starts)

end

section

variable (root : Path) (layout : Layout) (specifier : String) (origin : Path)

theorem anchor_ofLayout : (ofLayout root layout).anchor specifier origin =
    if isRelative specifier then origin.parent?.map fun directory => (.relative, directory, specifier)
    else
      match layout.longestAliases.find? fun entry => entry.1.toList.isPrefixOf specifier.toList with
      | some entry => some (.aliasPrefixed, root.join entry.2, String.ofList
          ((specifier.toList.drop entry.1.toList.length).dropWhile (· == Path.separator)))
      | none => (after? [Path.separator] specifier.toList).map fun rest =>
          (.rootRelative, root.join layout.sourceDir, String.ofList rest) := by
  unfold anchor
  rw [aliasAnchor_eq]
  simp only [ofLayout, List.find?_map, Function.comp_def]
  cases layout.longestAliases.find? fun entry => entry.1.toList.isPrefixOf specifier.toList <;> rfl

theorem anchored_of_anchor {strategy : Strategy} {base : Path} {rest : String}
    (anchored : (ofLayout root layout).anchor specifier origin = some (strategy, base, rest)) :
    Anchored root layout specifier origin strategy base rest := by
  rw [anchor_ofLayout] at anchored
  split at anchored
  next dotted =>
    obtain ⟨directory, parent, made⟩ := Option.map_eq_some_iff.1 anchored
    cases made
    exact .relative dotted parent
  next dotless =>
    rw [Bool.not_eq_true] at dotless
    split at anchored
    next entry found =>
      cases anchored
      -- The aliases are tried from the longest on, so that the first that fits is the longest that does.
      have longest := longest_of_find? layout specifier found
      obtain ⟨after, whole⟩ := longest.starts
      rw [← whole, List.drop_left]
      have split : specifier.toList = entry.1.toList ++
          (after.takeWhile (· == Path.separator) ++ after.dropWhile (· == Path.separator)) := by
        rw [List.takeWhile_append_dropWhile, whole]
      refine .aliased dotless longest split ?_ ?_
      · intro c member
        simpa using List.mem_takeWhile_imp member
      · intro first
        have stops := List.head?_dropWhile_not (· == Path.separator) after
        simp [first] at stops
    next found =>
      obtain ⟨after, cut, made⟩ := Option.map_eq_some_iff.1 anchored
      cases made
      exact .rooted dotless ((find?_eq_none_iff layout specifier).1 found) ((after?_eq_some_iff _ _ _).1 cut)

theorem anchor_of_anchored (distinct : (layout.aliases.map Prod.fst).Nodup) {strategy : Strategy} {base : Path}
    {rest : String} (anchored : Anchored root layout specifier origin strategy base rest) :
    (ofLayout root layout).anchor specifier origin = some (strategy, base, rest) := by
  rw [anchor_ofLayout]
  cases anchored with
  | relative dotted parent => rw [if_pos dotted, parent, Option.map_some]
  | @aliased entry slashes rest dotless longest split cut solid =>
    rw [if_neg (by simp [dotless])]
    cases found : layout.longestAliases.find? fun entry => entry.1.toList.isPrefixOf specifier.toList with
    | none => exact absurd longest.starts ((find?_eq_none_iff layout specifier).1 found entry longest.known)
    | some other =>
      -- An alias of the same length that starts the same text is the same.
      have longest' := longest_of_find? layout specifier found
      have same : other = entry :=
        List.inj_on_of_nodup_map distinct longest'.known longest.known (longest'.name_unique longest)
      have all : ∀ c ∈ slashes, (c == Path.separator) = true := fun c member => by simpa using cut c member
      have rest' : rest.dropWhile (· == Path.separator) = rest := by
        cases rest with
        | nil => rfl
        | cons c rest => exact List.dropWhile_cons_of_neg (by simpa using solid)
      simp only [same, split, List.drop_left, List.dropWhile_append_of_pos all, rest']
  | @rooted rest dotless free split =>
    rw [if_neg (by simp [dotless]), (find?_eq_none_iff layout specifier).2 free]
    have cut := (after?_eq_some_iff [Path.separator] specifier.toList rest).2 split
    simp only [cut, Option.map_some]

theorem strategyFor_eq {directory : Path} (parent : origin.parent? = some directory) :
    (ofLayout root layout).strategyFor specifier =
      ((ofLayout root layout).anchor specifier origin).map Prod.fst := by
  unfold strategyFor anchor
  rw [← aliasAnchor_isSome, parent]
  split
  · rfl
  · cases aliasAnchor specifier (ofLayout root layout).aliases with
    | some found => rfl
    | none =>
      unfold after?
      split <;> simp_all

end

theorem anchor_elsewhere {anchors : Anchors} {specifier rest : String} {origin base : Path} {strategy : Strategy}
    (anchored : anchors.anchor specifier origin = some (strategy, base, rest)) (unbound : strategy ≠ .relative) :
    isRelative specifier = false ∧ ∀ other, anchors.anchor specifier other = some (strategy, base, rest) := by
  unfold anchor at anchored ⊢
  split at anchored
  · obtain ⟨_, -, made⟩ := Option.map_eq_some_iff.1 anchored
    cases made
    exact absurd rfl unbound
  next dotless =>
    simp only [if_neg dotless]
    exact ⟨Bool.not_eq_true _ ▸ dotless, fun _ => anchored⟩

theorem strategy_resolve (anchors : Anchors) (isFile : Path -> Bool) (specifier : String) (origin : Path) :
    (anchors.resolve isFile specifier origin).strategy? = (anchors.anchor specifier origin).map Prod.fst := by
  unfold resolve
  cases anchors.anchor specifier origin with
  | none => rfl
  | some read =>
    obtain ⟨strategy, base, rest⟩ := read
    simp only
    cases anchors.root.normalizeWithin (base.join ⟨rest⟩) with
    | none => rfl
    | some candidate =>
      simp only
      cases (probed anchors.extensions candidate).find? isFile <;> rfl

theorem probed_eq (extensions : List String) (candidate : Path) : probed extensions candidate =
    (if candidate.extension?.any extensions.contains then []
      else extensions.map fun extension => candidate.append ("." ++ extension)) ++ [candidate] := by
  unfold probed
  cases candidate.extension? <;> rfl

theorem unknown_iff (extensions : List String) (candidate : Path) :
    Unknown extensions candidate ↔ candidate.extension?.any extensions.contains = false := by
  unfold Unknown
  cases candidate.extension? with
  | none => simp
  | some own =>
    simp only [Option.any_some, List.contains_eq_mem, decide_eq_false_iff_not, Option.some.injEq, ne_eq]
    exact ⟨fun all member => all own member rfl, fun missing extension member same => missing (same ▸ member)⟩

theorem find?_probed_iff (isFile : Path -> Bool) (extensions : List String) (candidate path : Path) :
    (probed extensions candidate).find? isFile = some path ↔ Found isFile extensions candidate path := by
  rw [probed_eq]
  cases known : candidate.extension?.any extensions.contains with
  | true =>
    -- The candidate has one of the extensions and is tried alone.
    have not : ¬ Unknown extensions candidate := by simp [unknown_iff, known]
    simp only [if_true, List.nil_append, List.find?_singleton]
    constructor
    · intro found
      split at found
      next file =>
        cases found
        exact .bare file fun unknown => absurd unknown not
      · cases found
    · intro found
      cases found with
      | extended unknown => exact absurd unknown not
      | bare file => rw [if_pos file]
  | false =>
    have unknown := (unknown_iff extensions candidate).2 known
    simp only [Bool.false_eq_true, if_false, List.find?_append, List.find?_singleton]
    constructor
    · intro found
      rcases Option.or_eq_some_iff.1 found with early | ⟨none, last⟩
      · rw [List.find?_map, Option.map_eq_some_iff] at early
        obtain ⟨extension, tried, rfl⟩ := early
        obtain ⟨file, before, after, split, first⟩ := List.find?_eq_some_iff_append.1 tried
        exact .extended unknown split file fun earlier member => by simpa using first earlier member
      · split at last
        next file =>
          cases last
          refine .bare file fun _ extension member => ?_
          have missed := List.find?_eq_none.1 none _ (List.mem_map_of_mem member)
          simpa using missed
        · cases last
    · intro found
      apply Option.or_eq_some_iff.2
      cases found with
      | @extended before after extension _ split file first =>
        refine .inl (List.find?_eq_some_iff_append.2 ⟨file, before.map fun extension =>
          candidate.append ("." ++ extension), after.map fun extension => candidate.append ("." ++ extension), ?_, ?_⟩)
        · rw [split, List.map_append, List.map_cons]
        · intro path member
          obtain ⟨earlier, inside, rfl⟩ := List.mem_map.1 member
          simp [first earlier inside]
      | bare file first =>
        refine .inr ⟨List.find?_eq_none.2 fun path member => ?_, if_pos file⟩
        obtain ⟨extension, inside, rfl⟩ := List.mem_map.1 member
        simp [first unknown extension inside]

theorem exists_found_iff (isFile : Path -> Bool) (extensions : List String) (candidate : Path) :
    (∃ path, Found isFile extensions candidate path) ↔ isFile candidate = true ∨
      Unknown extensions candidate ∧ ∃ extension ∈ extensions, isFile (candidate.append ("." ++ extension)) = true := by
  simp only [← find?_probed_iff, ← Option.isSome_iff_exists, List.find?_isSome, probed_eq, unknown_iff]
  cases candidate.extension?.any extensions.contains <;> simp [or_comm]

theorem resolve_eq_resolved_iff (anchors : Anchors) (isFile : Path -> Bool) (specifier : String) (origin : Path)
    (strategy : Strategy) (path : Path) : anchors.resolve isFile specifier origin = .resolved strategy path ↔
      ∃ base rest candidate, anchors.anchor specifier origin = some (strategy, base, rest) ∧
        anchors.root.normalizeWithin (base.join ⟨rest⟩) = some candidate ∧
        Found isFile anchors.extensions candidate path := by
  simp only [← find?_probed_iff]
  unfold resolve
  cases anchors.anchor specifier origin with
  | none => simp
  | some read =>
    obtain ⟨strategy', base, rest⟩ := read
    cases normal : anchors.root.normalizeWithin (base.join ⟨rest⟩) with
    | none => simp [normal]
    | some candidate =>
      cases tried : (probed anchors.extensions candidate).find? isFile <;> simp [normal, tried]

theorem resolve_eq_missing_iff (anchors : Anchors) (isFile : Path -> Bool) (specifier : String) (origin : Path)
    (strategy : Strategy) (outcome : Option Path) :
    anchors.resolve isFile specifier origin = .missing strategy outcome ↔
      ∃ base rest, anchors.anchor specifier origin = some (strategy, base, rest) ∧
        anchors.root.normalizeWithin (base.join ⟨rest⟩) = outcome ∧
        ∀ candidate ∈ outcome, ∀ path, ¬ Found isFile anchors.extensions candidate path := by
  simp only [← find?_probed_iff, ← Option.eq_none_iff_forall_ne_some]
  unfold resolve
  cases anchors.anchor specifier origin with
  | none => simp
  | some read =>
    obtain ⟨strategy', base, rest⟩ := read
    cases normal : anchors.root.normalizeWithin (base.join ⟨rest⟩) with
    | none => cases outcome <;> simp [normal]
    | some candidate =>
      cases tried : (probed anchors.extensions candidate).find? isFile <;> cases outcome <;>
        simp [normal, tried, -List.find?_eq_none] <;> grind

section

variable {root origin directory : Path} {layout : Layout}

theorem anchor_iff (distinct : (layout.aliases.map Prod.fst).Nodup) (specifier : String) (strategy : Strategy)
    (base : Path) (rest : String) : (ofLayout root layout).anchor specifier origin = some (strategy, base, rest) ↔
      Anchored root layout specifier origin strategy base rest :=
  ⟨anchored_of_anchor root layout specifier origin, anchor_of_anchored root layout specifier origin distinct⟩

theorem Anchored.perm {aliases : Table String Path} (perm : aliases.Perm layout.aliases) {specifier : String}
    {strategy : Strategy} {base : Path} {rest : String}
    (anchored : Anchored root layout specifier origin strategy base rest) :
    Anchored root { layout with aliases := aliases } specifier origin strategy base rest := by
  cases anchored with
  | relative dotted parent => exact .relative dotted parent
  | aliased dotless found split cut solid =>
    refine .aliased dotless ⟨perm.mem_iff.2 found.known, found.starts, fun other member => ?_⟩ split cut solid
    exact found.longest other (perm.mem_iff.1 member)
  | rooted dotless free split => exact .rooted dotless (fun entry member => free entry (perm.mem_iff.1 member)) split

theorem anchor_perm (distinct : (layout.aliases.map Prod.fst).Nodup) {aliases : Table String Path}
    (perm : aliases.Perm layout.aliases) (specifier : String) :
    (ofLayout root { layout with aliases := aliases }).anchor specifier origin =
      (ofLayout root layout).anchor specifier origin := by
  have distinct' : (aliases.map Prod.fst).Nodup := (perm.map Prod.fst).nodup_iff.2 distinct
  apply Option.ext
  rintro ⟨strategy, base, rest⟩
  rw [anchor_iff distinct, anchor_iff distinct']
  exact ⟨fun anchored => anchored.perm perm.symm, fun anchored => anchored.perm perm⟩

variable (root) in
/-- A specifier is attempted by the strategy that its text calls for, read from the longest alias in whatever order
the aliases stand, and names the first file among the names that it may stand for, if it stays in the project. -/
theorem resolution_exact (parent : origin.parent? = some directory)
    (distinct : (layout.aliases.map Prod.fst).Nodup) (isFile : Path -> Bool) (specifier : String) :
    ((ofLayout root layout).resolve isFile specifier origin = .notAttempted ↔
      (ofLayout root layout).strategyFor specifier = none) ∧
    ((ofLayout root layout).resolve isFile specifier origin).strategy? =
      (ofLayout root layout).strategyFor specifier ∧
    (∀ strategy base rest, (ofLayout root layout).anchor specifier origin = some (strategy, base, rest) ↔
      Anchored root layout specifier origin strategy base rest) ∧
    (∀ aliases : Table String Path, aliases.Perm layout.aliases ->
      (ofLayout root { layout with aliases := aliases }).anchor specifier origin =
        (ofLayout root layout).anchor specifier origin) ∧
    (∀ strategy path, (ofLayout root layout).resolve isFile specifier origin = .resolved strategy path ↔
      ∃ base rest candidate, Anchored root layout specifier origin strategy base rest ∧
        root.normalizeWithin (base.join ⟨rest⟩) = some candidate ∧
        Found isFile layout.probeExtensions candidate path) ∧
    ∀ candidate, (∃ path, Found isFile layout.probeExtensions candidate path) ↔ isFile candidate = true ∨
      Unknown layout.probeExtensions candidate ∧
        ∃ extension ∈ layout.probeExtensions, isFile (candidate.append ("." ++ extension)) = true := by
  have strategy : ((ofLayout root layout).resolve isFile specifier origin).strategy? =
      (ofLayout root layout).strategyFor specifier := by
    rw [strategy_resolve, strategyFor_eq root layout specifier origin parent]
  refine ⟨?_, strategy, anchor_iff distinct specifier, fun aliases perm => anchor_perm distinct perm specifier, ?_,
    exists_found_iff isFile layout.probeExtensions⟩
  · rw [← strategy]
    cases (ofLayout root layout).resolve isFile specifier origin <;> simp [Resolution.strategy?]
  · intro strategy path
    rw [resolve_eq_resolved_iff]
    simp only [anchor_iff distinct]
    rfl

end

def nested : Layout := { Layout.usual with aliases := [("/", ⟨"lib"⟩), ("/ui", ⟨"src/ui"⟩), ("/u", ⟨"src/users"⟩)] }

theorem nested_exact : (Path.mk "/project/src/app.ts").parent? = some ⟨"/project/src"⟩ ∧
    (nested.aliases.map Prod.fst).Nodup ∧
    (ofLayout ⟨"/project"⟩ nested).resolve
      (fun path => path.text == "/project/src/ui/card.service" || path.text == "/project/src/ui/card.service.ts")
      "/ui//card.service" ⟨"/project/src/app.ts"⟩ = .resolved .aliasPrefixed ⟨"/project/src/ui/card.service.ts"⟩ := by
  have computed : (Path.mk "/project/src/app.ts").parent? = some ⟨"/project/src"⟩ ∧
      (nested.aliases.map Prod.fst).Nodup ∧ isRelative "/ui//card.service" = false ∧
      (∀ other ∈ nested.aliases, other.1.utf8ByteSize ≤ "/ui".utf8ByteSize) ∧
      (Path.mk "/project").normalizeWithin (((Path.mk "/project").join ⟨"src/ui"⟩).join ⟨"card.service"⟩) =
        some ⟨"/project/src/ui/card.service"⟩ ∧
      (Path.mk "/project/src/ui/card.service").extension? = some "service" := by decide +kernel
  obtain ⟨parent, distinct, dotless, longest, normal, ending⟩ := computed
  have found : Found
      (fun path => path.text == "/project/src/ui/card.service" || path.text == "/project/src/ui/card.service.ts")
      nested.probeExtensions ⟨"/project/src/ui/card.service"⟩ ⟨"/project/src/ui/card.service.ts"⟩ := by
    refine @Found.extended _ _ _ ["tsx"] ["jsx", "js"] "ts" ?_ rfl (by decide) (by decide)
    simp [Unknown, ending, nested, Layout.usual]
  have anchored := @Anchored.aliased ⟨"/project"⟩ nested "/ui//card.service" ⟨"/project/src/app.ts"⟩
    ("/ui", ⟨"src/ui"⟩) ['/', '/'] "card.service".toList dotless
    ⟨by simp [nested], by decide, fun other member _ => longest other member⟩ (by decide) (by simp [Path.separator])
    (by decide)
  rw [String.ofList_toList] at anchored
  have exactly := resolution_exact ⟨"/project"⟩ parent distinct
    (fun path => path.text == "/project/src/ui/card.service" || path.text == "/project/src/ui/card.service.ts")
    "/ui//card.service"
  exact ⟨parent, distinct, (exactly.2.2.2.2.1 _ _).2 ⟨_, _, _, anchored, normal, found⟩⟩

end Anchors

end Stowage

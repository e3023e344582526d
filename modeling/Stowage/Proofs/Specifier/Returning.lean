import Mathlib.Data.List.Basic
import Stowage.Proofs.Path.Stems
import Stowage.Proofs.Specifier.Ways
import Stowage.Specifier.Basic

set_option autoImplicit false

namespace Stowage

def Path.Within (base p : Path) : Prop :=
  ∃ names : List String, p.components = base.components ++ names.map .name

/-- `p` goes down from `base` by one name or more. -/
def Path.Under (base p : Path) : Prop :=
  ∃ names : List String, names ≠ [] ∧ p.components = base.components ++ names.map .name

def Anchors.settle (anchors : Anchors) (isFile : Path -> Bool) (strategy : Strategy) (candidate : Path) : Resolution :=
  match (Anchors.probed anchors.extensions candidate).find? isFile with
  | some path => .resolved strategy path
  | none => .missing strategy (some candidate)

theorem Anchors.resolve_eq_settle {anchors : Anchors} {specifier rest : String} {origin base candidate : Path}
    {strategy : Strategy} (anchored : anchors.anchor specifier origin = some (strategy, base, rest))
    (normal : anchors.root.normalizeWithin (base.join ⟨rest⟩) = some candidate) (isFile : Path -> Bool) :
    anchors.resolve isFile specifier origin = anchors.settle isFile strategy candidate := by
  unfold resolve settle
  rw [anchored]
  cases found : (probed anchors.extensions candidate).find? isFile <;> simp [normal, found]

namespace Specifier

open Stowage.Path (separator IsName spelled segmentComponent)

/-- The components of a target as it is imported: those of its directory, and its name or the stem of it. -/
def meant (target : Path) (keepExtension : Bool) : List Component :=
  target.components.dropLast ++ (if keepExtension then target.fileName? else target.stem?).toList.map .name

section

variable {root target : Path} (under : root.Under target) (dot : target.stem? ≠ some ".")
  (dots : target.stem? ≠ some "..") (keepExtension : Bool)

include under dot dots

theorem shown_under : (shown target keepExtension).components = meant target keepExtension ∧
    root.Under (shown target keepExtension) := by
  obtain ⟨names, filled, spelt⟩ := under
  obtain ⟨front, last, rfl⟩ := (List.eq_nil_or_concat' names).resolve_left filled
  rw [List.map_append, ← List.append_assoc] at spelt
  have named := Path.fileName?_of_components _ _ last spelt
  have above : target.components.dropLast = root.components ++ front.map .name := by
    rw [spelt, List.map_singleton, List.dropLast_concat]
  have below : ∀ name : String, root.components ++ front.map .name ++ [.name name] =
      root.components ++ (front ++ [name]).map .name := by simp
  unfold meant shown
  rw [above]
  cases keepExtension with
  | true =>
    rw [if_pos rfl, if_pos rfl, named]
    exact ⟨spelt, _, filled, spelt.trans (below last)⟩
  | false =>
    rw [if_neg Bool.false_ne_true, if_neg Bool.false_ne_true]
    cases stems : target.stem? with
    | none => simp [Path.stem?, named] at stems
    | some stem =>
      rw [stems] at dot dots
      have cut := Path.components_withoutExtension spelt stems (fun same => dot (by rw [same]))
        fun same => dots (by rw [same])
      exact ⟨cut, front ++ [stem], by simp, cut.trans (below stem)⟩

end

section

variable {names : List String} (count : Nat) (filled : names ≠ []) (named : ∀ name ∈ names, IsName name)

include named

theorem spelled_steps : spelled ((List.replicate count ".." ++ names).map String.toList) =
    List.replicate count .up ++ names.map .name := by
  have up : segmentComponent 1 "..".toList = some .up := by simp [segmentComponent]
  have down : ∀ name ∈ names, segmentComponent 1 name.toList = some (.name name) := by
    intro name member
    simp [segmentComponent, (named name member).segment]
  have downs : spelled (names.map String.toList) = names.map .name := by
    rw [spelled, List.filterMap_map]
    exact (List.filterMap_congr down).trans (congrFun List.filterMap_eq_map names)
  rw [List.map_append, List.map_replicate, Path.spelled_append, downs, spelled, List.filterMap_replicate, up]

include filled

theorem splitOn_steps : Text.splitOn separator
    ([separator].intercalate ((List.replicate count ".." ++ names).map String.toList)) =
      (List.replicate count ".." ++ names).map String.toList := by
  refine Text.splitOn_intercalate separator (by simp [filled]) ?_
  intro segment member
  obtain ⟨step, inside, rfl⟩ := List.mem_map.1 member
  rcases List.mem_append.1 inside with up | down
  · rw [List.eq_of_mem_replicate up]
    simp [separator]
  · exact (named step down).2.2.2

theorem way_spelled : (Path.mk (wayText (List.replicate count ".." ++ names))).isAbsolute = false ∧
    spelled (Text.splitOn separator (wayText (List.replicate count ".." ++ names)).toList) =
      List.replicate count .up ++ names.map .name := by
  have split := splitOn_steps count filled named
  have spelt := spelled_steps count named
  have text := toList_wayText (List.replicate count ".." ++ names)
  generalize wayText (List.replicate count ".." ++ names) = way at text
  split at text
  next dots =>
    rw [← text] at split dots
    refine ⟨?_, by rw [split, spelt]⟩
    obtain ⟨rest, dotted⟩ := dots
    simp [Path.isAbsolute, ← dotted, separator]
  · have apart := Text.splitOn_append separator ['.']
      ([separator].intercalate ((List.replicate count ".." ++ names).map String.toList))
    have dot : Text.splitOn separator ['.'] = [['.']] := by decide
    rw [List.singleton_append, ← text, split, dot] at apart
    refine ⟨?_, ?_⟩
    · simp [Path.isAbsolute, text, separator]
    · rw [apart, Path.spelled_append, spelt]
      rfl

theorem joined_spelled : (Path.mk ("/".intercalate names)).isAbsolute = false ∧
    spelled (Text.splitOn separator ("/".intercalate names).toList) = names.map .name := by
  have split := splitOn_steps 0 filled named
  have spelt := spelled_steps 0 named
  have joined : ("/".intercalate names).toList = [separator].intercalate (names.map String.toList) := by
    simp [separator]
  rw [List.replicate_zero, List.nil_append] at split spelt
  rw [← joined] at split
  refine ⟨?_, by rw [split, spelt]; rfl⟩
  obtain ⟨first, others, rfl⟩ := List.exists_cons_of_ne_nil filled
  exact Path.isAbsolute_of_splitOn split (named first List.mem_cons_self).segment.1

end

theorem take_common_names (names others : List String) :
    names.take (commonLength (names.map .name) (others.map .name)) =
      others.take (commonLength (names.map .name) (others.map .name)) := by
  have shared := take_commonLength (names.map .name) (others.map .name)
  rw [← List.map_take, ← List.map_take] at shared
  exact List.map_injective_iff.2 (fun _ _ same => Component.name.inj same) shared

theorem steps?_below {root : List Component} {names others : List String} {steps : List String}
    (known : steps? (.root :: (root ++ names.map .name)) (.root :: (root ++ others.map .name)) = some steps) :
    ∃ shared, shared ≤ names.length ∧ names.take shared = others.take shared ∧ others.drop shared ≠ [] ∧
      steps = List.replicate (names.length - shared) ".." ++ others.drop shared := by
  obtain ⟨off, rfl⟩ := (steps?_eq_some_iff _ _ _).1 known
  have least := commonLength_le_left (names.map .name) (others.map .name)
  have shared := take_common_names names others
  rw [List.length_map] at least
  rw [commonLength_append]
  generalize commonLength (names.map .name) (others.map .name) = count at least shared
  refine ⟨count, least, shared, ?_, ?_⟩
  · -- With nothing left to go down to, the target would be on the way to the directory.
    intro none
    refine off (List.prefix_cons_inj _ |>.2 ((List.prefix_append_right_inj _).2 ?_))
    have whole := List.take_append_drop count others
    rw [none, List.append_nil, ← shared] at whole
    rw [← whole, List.map_take]
    exact List.take_prefix _ _
  · rw [List.length_append, Nat.add_sub_add_left, List.length_map, List.drop_length_add_append, ← List.map_drop,
      List.map_map]
    exact congrArg _ (List.map_id _)

section

variable {root target : Path} {below : List String} (absolute : root.isAbsolute = true)
  (spelt : target.components = root.components ++ below.map .name)

include absolute spelt

theorem way_returns {directory : Path} {above : List String}
    (spelt' : directory.components = root.components ++ above.map .name) {steps : List String}
    (known : steps? directory.components target.components = some steps) :
    ∃ found, root.normalizeWithin (directory.join ⟨wayText steps⟩) = some found ∧
      found.components = target.components := by
  obtain ⟨after, rooted⟩ := Path.components_of_isAbsolute absolute
  have absolute' := Path.isAbsolute_of_append absolute spelt'
  rw [spelt, spelt', rooted, List.cons_append, List.cons_append] at known
  obtain ⟨shared, least, same, filled, rfl⟩ := steps?_below known
  have named : ∀ name ∈ below.drop shared, IsName name := by
    intro name inside
    exact Path.isName_of_component target name (by simp [spelt, List.mem_of_mem_drop inside])
  obtain ⟨relative, spelled'⟩ := way_spelled (above.length - shared) filled named
  have joined := Path.components_join_spelled (Path.filled_of_isAbsolute absolute') relative
  rw [spelled', spelt', List.append_assoc] at joined
  obtain ⟨found, normal, reached⟩ := Path.normalizeWithin_around absolute joined (Nat.sub_le _ _)
  refine ⟨found, normal, ?_⟩
  rw [reached, spelt, Nat.sub_sub_self least, same, List.take_append_drop]

theorem below_returns {sourceRoot rest : Path} (within : root.Within sourceRoot)
    (known : sourceRoot.below? target = some rest) (filled : rest.components ≠ []) :
    ∃ names : List String, rest.components.map Component.text = names ∧
      (Path.mk ("/".intercalate names)).isAbsolute = false ∧
      (sourceRoot.join ⟨"/".intercalate names⟩).components = target.components ∧
      ∃ candidate, root.normalizeWithin (sourceRoot.join ⟨"/".intercalate names⟩) = some candidate ∧
        candidate.components = target.components := by
  obtain ⟨above, spelt'⟩ := within
  have absolute' := Path.isAbsolute_of_append absolute spelt'
  have whole := Path.components_of_below? absolute' known
  have split := whole
  rw [spelt, spelt', List.append_assoc, List.append_cancel_left_eq] at split
  -- All of the target below the root is names, and the rest below the source root is the last of them.
  obtain ⟨front, names, rfl, -, own⟩ := List.map_eq_append_iff.1 split
  have texts : rest.components.map Component.text = names := by
    rw [← own, List.map_map]
    exact List.map_id _
  have filled' : names ≠ [] := by
    rintro rfl
    exact filled own.symm
  have named : ∀ name ∈ names, IsName name := by
    intro name inside
    exact Path.isName_of_component target name (by simp [spelt, inside])
  obtain ⟨relative, spelled'⟩ := joined_spelled filled' named
  have joined := Path.components_join_spelled (Path.filled_of_isAbsolute absolute') relative
  rw [spelled'] at joined
  have whole' : (sourceRoot.join ⟨"/".intercalate names⟩).components = root.components ++
      (above.map .name ++ (List.replicate 0 .up ++ names.map .name)) := by
    rw [joined, spelt', List.append_assoc]
    rfl
  obtain ⟨candidate, normal, reached⟩ := Path.normalizeWithin_around absolute whole' (Nat.zero_le _)
  refine ⟨names, texts, relative, ?_, candidate, normal, ?_⟩
  · rw [joined, whole, own]
  · rw [reached, Nat.sub_zero, List.take_length, List.map_append, ← List.append_assoc, ← spelt', own, whole]

end

theorem isAbsolute_of_isRelative {specifier : String} (dotted : isRelative specifier = true) :
    (Path.mk specifier).isAbsolute = false := by
  unfold Path.isAbsolute
  rw [decide_eq_false_iff_not]
  intro rooted
  obtain ⟨rest, chars⟩ : ∃ rest, specifier.toList = separator :: rest := by
    cases text : specifier.toList <;> simp_all
  have apart : ∀ dots : String, dots.toList.head? = some '.' -> specifier ≠ dots := by
    rintro dots first rfl
    simp [chars, separator] at first
  have dot := apart "." (by simp)
  have dots := apart ".." (by simp)
  simp [isRelative, chars, separator, dot, dots, List.isPrefixOf] at dotted

theorem anchor_rooted {anchors : Anchors} {rest : String}
    (free : ∀ entry ∈ anchors.aliases, ¬ entry.1.toList <+: ("/" ++ rest).toList) (origin : Path) :
    anchors.anchor ("/" ++ rest) origin = some (.rootRelative, anchors.sourceRoot, rest) := by
  have chars : ("/" ++ rest).toList = separator :: rest.toList := by simp [separator]
  -- No dot comes first, and no alias by assumption, so that the third strategy is left.
  have other : isRelative ("/" ++ rest) = false := by
    rw [Bool.eq_false_iff]
    intro dotted
    simpa [Path.isAbsolute, separator] using isAbsolute_of_isRelative dotted
  have alone : Anchors.aliasAnchor ("/" ++ rest) anchors.aliases = none := by
    rw [← Option.not_isSome_iff_eq_none, Anchors.aliasAnchor_isSome, List.any_eq_true]
    rintro ⟨entry, member, starts⟩
    exact free entry member (List.isPrefixOf_iff_prefix.1 starts)
  unfold Anchors.anchor
  rw [other, alone, chars]
  simp [after?]

section

variable {root target : Path} (plain : root.Plain) (imported : root.Under target) (dot : target.stem? ≠ some ".")
  (dots : target.stem? ≠ some "..") {keepExtension : Bool} {specifier : String}

include plain imported dot dots

theorem relative?_returns {file : Path} (importing : root.Under file)
    (known : relative? file target keepExtension = some specifier) : ∃ directory found,
      file.parent? = some directory ∧ root.normalizeWithin (directory.join ⟨specifier⟩) = some found ∧
        found.components = meant target keepExtension := by
  obtain ⟨written, below, -, spelt⟩ := shown_under imported dot dots keepExtension
  obtain ⟨names, filled, whole⟩ := importing
  obtain ⟨front, last, rfl⟩ := (List.eq_nil_or_concat' names).resolve_left filled
  rw [List.map_append, ← List.append_assoc] at whole
  have named : Component.name last ≠ .root := fun impossible => by cases impossible
  obtain ⟨directory, parent, spelt'⟩ := Path.parent?_of_name named whole
  rw [relative?_eq, parent, Option.bind_some] at known
  obtain ⟨steps, reached, rfl⟩ := Option.map_eq_some_iff.1 known
  obtain ⟨found, normal, same⟩ := way_returns plain.isAbsolute spelt spelt' reached
  exact ⟨directory, found, parent, normal, same.trans written⟩

theorem rooted?_returns {sourceRoot : Path} (within : root.Within sourceRoot)
    (known : rooted? sourceRoot target keepExtension = some specifier) : ∃ rest candidate,
      specifier = "/" ++ rest ∧ (Path.mk rest).isAbsolute = false ∧
        (sourceRoot.join ⟨rest⟩).components = meant target keepExtension ∧
        root.normalizeWithin (sourceRoot.join ⟨rest⟩) = some candidate ∧
        candidate.components = meant target keepExtension := by
  obtain ⟨written, below, -, spelt⟩ := shown_under imported dot dots keepExtension
  obtain ⟨rest, under, known⟩ := Option.bind_eq_some_iff.1 known
  split at known
  · cases known
  next filled =>
    cases known
    obtain ⟨names, texts, relative, joined, candidate, normal, same⟩ :=
      below_returns plain.isAbsolute spelt within under filled
    exact ⟨_, candidate, by rw [texts], relative, joined.trans written, normal, same.trans written⟩

end

/-- Every specifier that is written for a target below the root leads back to it: the relative one from the directory
of the importing file, and the one that starts at the source root from there, whatever file reads it, unless an alias
comes first. -/
theorem specifiers_return {root file target sourceRoot : Path} (plain : root.Plain) (importing : root.Under file)
    (imported : root.Under target) (dot : target.stem? ≠ some ".") (dots : target.stem? ≠ some "..")
    (within : root.Within sourceRoot) (keepExtension : Bool) :
    (∀ specifier, relative? file target keepExtension = some specifier -> ∃ directory found,
      file.parent? = some directory ∧ root.normalizeWithin (directory.join ⟨specifier⟩) = some found ∧
        found.components = meant target keepExtension) ∧
    ∀ specifier, rooted? sourceRoot target keepExtension = some specifier -> ∃ rest candidate,
      specifier = "/" ++ rest ∧ (Path.mk rest).isAbsolute = false ∧
        (sourceRoot.join ⟨rest⟩).components = meant target keepExtension ∧
        candidate.components = meant target keepExtension ∧
        ∀ anchors : Anchors, anchors.root = root -> anchors.sourceRoot = sourceRoot ->
          (∀ entry ∈ anchors.aliases, ¬ entry.1.toList <+: specifier.toList) -> ∀ isFile origin,
            anchors.resolve isFile specifier origin = anchors.settle isFile .rootRelative candidate := by
  refine ⟨fun specifier known => relative?_returns plain imported dot dots importing known, ?_⟩
  intro specifier known
  obtain ⟨rest, candidate, rfl, relative, joined, normal, same⟩ :=
    rooted?_returns plain imported dot dots within known
  refine ⟨rest, candidate, rfl, relative, joined, same, ?_⟩
  rintro anchors rfl rfl free isFile origin
  exact Anchors.resolve_eq_settle (anchor_rooted free origin) normal isFile

theorem dotted_returns :
    (∃ found, (Path.mk "/project").normalizeWithin ((Path.mk "/project/src/app").join ⟨"../lib/card.service"⟩) =
      some found ∧ found.components = [.root, .name "project", .name "src", .name "lib", .name "card.service"]) ∧
    ∃ candidate : Path,
      candidate.components = [.root, .name "project", .name "src", .name "lib", .name "card.service"] ∧
        ∀ isFile origin, (Anchors.mk ⟨"/project"⟩ ⟨"/project/src"⟩ [("@/", ⟨"/project/src"⟩)] ["ts"]).resolve isFile
          "/lib/card.service" origin =
            (Anchors.mk ⟨"/project"⟩ ⟨"/project/src"⟩ [("@/", ⟨"/project/src"⟩)] ["ts"]).settle isFile .rootRelative
              candidate := by
  have computed : (Path.mk "/project").Plain ∧
      (Path.mk "/project/src/app/main.ts").components =
        (Path.mk "/project").components ++ ["src", "app", "main.ts"].map .name ∧
      (Path.mk "/project/src/lib/card.service.ts").components =
        (Path.mk "/project").components ++ ["src", "lib", "card.service.ts"].map .name ∧
      (Path.mk "/project/src").components = (Path.mk "/project").components ++ ["src"].map .name ∧
      (Path.mk "/project/src/lib/card.service.ts").stem? = some "card.service" ∧
      (Path.mk "/project/src/app/main.ts").parent? = some ⟨"/project/src/app"⟩ ∧
      meant ⟨"/project/src/lib/card.service.ts"⟩ false =
        [.root, .name "project", .name "src", .name "lib", .name "card.service"] ∧
      relative? ⟨"/project/src/app/main.ts"⟩ ⟨"/project/src/lib/card.service.ts"⟩ false =
        some "../lib/card.service" ∧
      rooted? ⟨"/project/src"⟩ ⟨"/project/src/lib/card.service.ts"⟩ false = some "/lib/card.service" := by
    decide +kernel
  obtain ⟨plain, importing, imported, within, stem, known, target, written, written'⟩ := computed
  obtain ⟨relative, rooted⟩ := specifiers_return plain ⟨_, List.cons_ne_nil _ _, importing⟩
    ⟨_, List.cons_ne_nil _ _, imported⟩ (by simp [stem]) (by simp [stem]) ⟨_, within⟩ false
  rw [← target]
  constructor
  · obtain ⟨directory, found, parent, normal, same⟩ := relative _ written
    rw [known] at parent
    cases parent
    exact ⟨found, normal, same⟩
  · obtain ⟨-, candidate, -, -, -, same, read⟩ := rooted _ written'
    exact ⟨candidate, same, fun isFile origin => read _ rfl rfl (by simp) isFile origin⟩

end Specifier

end Stowage

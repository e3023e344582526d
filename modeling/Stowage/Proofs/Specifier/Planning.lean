import Mathlib.Data.List.Nodup
import Stowage.Proofs.Path.Tables
import Stowage.Proofs.Specifier.Returning
import Stowage.Specifier.Rewrites

set_option autoImplicit false

namespace Stowage

namespace Path

theorem fileName?_congr {a b : Path} (same : a.same b = true) : a.fileName? = b.fileName? := by
  unfold fileName?
  rw [eq_of_beq same]

theorem Plain.congr {a b : Path} (plain : a.Plain) (same : a.same b = true) : b.Plain := by
  obtain ⟨names, spelt⟩ := plain
  exact ⟨names, by rw [← eq_of_beq same, spelt]⟩

/-- An absolute path without detours, of which the name has a stem that is not taken for a `.` or a `..`. -/
structure Tidy (p : Path) : Prop where
  plain : p.Plain
  dot : p.stem? ≠ some "."
  dots : p.stem? ≠ some ".."

theorem Plain.top_or_under {p : Path} (plain : p.Plain) : p.components = [.root] ∨ (Path.mk "/").Under p := by
  obtain ⟨names, spelt⟩ := plain
  have top : (Path.mk "/").components = [.root] := by decide
  by_cases empty : names = []
  · exact .inl (by rw [spelt, empty, List.map_nil])
  · exact .inr ⟨names, empty, by rw [spelt, top, List.singleton_append]⟩

theorem Plain.parent_components {p : Path} (plain : p.Plain) : p.parent?.map Path.components =
    if p.components = [.root] then none else some p.components.dropLast := by
  cases known : p.parent? with
  | none =>
    split
    · rfl
    next below =>
      -- The last component is a name, so that something is above it.
      obtain ⟨names, spelt⟩ := plain
      obtain ⟨front, last, rfl⟩ := (List.eq_nil_or_concat' names).resolve_left (by rintro rfl; exact below spelt)
      rw [List.map_append, ← List.cons_append] at spelt
      obtain ⟨above, known', -⟩ := parent?_of_name (by simp) spelt
      cases known.symm.trans known'
  | some above =>
    have inner := (plain.parent known []).2.2
    have top : p.components ≠ [.root] := by
      rw [plain.components []]
      simpa using inner
    rw [if_neg top, Option.map_some, components_parent known]

theorem below?_congr {base a b : Path} (absolute : base.isAbsolute = true) (same : a.same b = true) :
    (base.below? a).map Path.components = (base.below? b).map Path.components := by
  have onward : ∀ a b : Path, a.same b = true -> ∀ rest, base.below? a = some rest ->
      ∃ rest', base.below? b = some rest' ∧ rest'.components = rest.components := by
    intro a b same rest known
    have spelt := components_of_below? absolute known
    rw [eq_of_beq same] at spelt
    exact below?_of_components absolute spelt
  cases known : base.below? a with
  | some rest =>
    obtain ⟨rest', known', equal⟩ := onward a b same rest known
    rw [known', Option.map_some, Option.map_some, equal]
  | none =>
    cases known' : base.below? b with
    | none => rfl
    | some rest =>
      obtain ⟨rest', impossible, -⟩ := onward b a (same_symm same) rest known'
      cases known.symm.trans impossible

end Path

namespace Specifier

open Stowage.Path (IsName)

def collected (edits : List Edit) : List Edit := edits.foldl (fun edits edit => addEdit edit edits) []

theorem addEdit_find? (edit : Edit) (edits : List Edit) (raw : String) :
    (addEdit edit edits).find? (fun other => other.raw == raw) =
      (edits ++ [edit]).find? fun other => other.raw == raw := by
  unfold addEdit
  split
  next known =>
    rw [List.find?_append]
    by_cases own : edit.raw = raw
    · have found : (edits.find? fun other => other.raw == raw).isSome = true := by
        rw [List.find?_isSome, ← own]
        simpa using known
      rw [Option.or_of_isSome found]
    · simp [own]
  · rfl

theorem nodup_addEdit (edit : Edit) {edits : List Edit} (distinct : (edits.map Edit.raw).Nodup) :
    ((addEdit edit edits).map Edit.raw).Nodup := by
  unfold addEdit
  split
  · exact distinct
  next unknown =>
    rw [List.map_append, List.nodup_append]
    refine ⟨distinct, by simp, ?_⟩
    rintro raw known _ own rfl
    obtain ⟨other, inside, rfl⟩ := List.mem_map.1 known
    simp only [List.map_cons, List.map_nil, List.mem_singleton] at own
    exact unknown (List.any_eq_true.2 ⟨other, inside, by simp [own]⟩)

theorem collected_find? (edits : List Edit) (raw : String) :
    (collected edits).find? (fun other => other.raw == raw) = edits.find? fun other => other.raw == raw := by
  have all : ∀ acc : List Edit, (edits.foldl (fun edits edit => addEdit edit edits) acc).find?
      (fun other => other.raw == raw) = (acc ++ edits).find? fun other => other.raw == raw := by
    induction edits with
    | nil => simp
    | cons edit rest ih =>
      intro acc
      rw [List.foldl_cons, ih, List.find?_append, addEdit_find?, ← List.find?_append, List.append_assoc]
      rfl
  exact all []

theorem nodup_collected (edits : List Edit) : ((collected edits).map Edit.raw).Nodup := by
  have all : ∀ acc : List Edit, (acc.map Edit.raw).Nodup ->
      ((edits.foldl (fun edits edit => addEdit edit edits) acc).map Edit.raw).Nodup := by
    induction edits with
    | nil => exact fun acc distinct => distinct
    | cons edit rest ih => exact fun acc distinct => ih _ (nodup_addEdit edit distinct)
  exact all [] List.nodup_nil

theorem mem_collected_iff (edits : List Edit) (edit : Edit) :
    edit ∈ collected edits ↔ edits.find? (fun other => other.raw == edit.raw) = some edit := by
  rw [← collected_find?]
  constructor
  · intro inside
    cases found : (collected edits).find? fun other => other.raw == edit.raw with
    | none => simpa using List.find?_eq_none.1 found edit inside
    | some other =>
      have same := List.find?_some found
      have raw : other.raw = edit.raw := by simpa using same
      rw [List.inj_on_of_nodup_map (nodup_collected edits) (List.mem_of_find?_eq_some found) inside raw]
  · exact List.mem_of_find?_eq_some

section

variable (steps : List (Path × Edit))

theorem lookup_steps {table : Table Path (List Edit)} (sorted : table.Sorted Path.order) (p : Path) :
    ((steps.foldl (fun plans step => plans.alter Path.order step.1 [] (addEdit step.2)) table).lookup
      Path.order p).getD [] = ((steps.filter fun step => p.same step.1).map Prod.snd).foldl
        (fun edits edit => addEdit edit edits) ((table.lookup Path.order p).getD []) := by
  induction steps generalizing table with
  | nil => rfl
  | cons step rest ih =>
    have sorted' := Table.sorted_alter Path.order Path.order_trans Path.order_gt step.1 [] (addEdit step.2) table sorted
    rw [List.foldl_cons, ih sorted', Table.lookup_alter sorted]
    by_cases own : p.same step.1 = true <;> simp [own]

theorem sorted_steps {table : Table Path (List Edit)} (sorted : table.Sorted Path.order) :
    (steps.foldl (fun plans step => plans.alter Path.order step.1 [] (addEdit step.2)) table).Sorted Path.order := by
  induction steps generalizing table with
  | nil => exact sorted
  | cons step rest ih =>
    exact ih (Table.sorted_alter Path.order Path.order_trans Path.order_gt step.1 [] (addEdit step.2) table sorted)

end

section

variable (edges : List Edge) (fates : Fates) (sourceRoot : Path)

theorem rewrites_sorted : (rewrites edges fates sourceRoot).Sorted Path.order :=
  sorted_steps _ List.Pairwise.nil

def calls (p : Path) : List Edit :=
  ((edges.filterMap (editFor fates sourceRoot)).filter fun step => p.same step.1).map Prod.snd

theorem lookup_rewrites (p : Path) :
    ((rewrites edges fates sourceRoot).lookup Path.order p).getD [] = collected (calls edges fates sourceRoot p) :=
  lookup_steps _ List.Pairwise.nil p

theorem rewrites_row {row : Path × List Edit} (inside : row ∈ rewrites edges fates sourceRoot) :
    row.2 = collected (calls edges fates sourceRoot row.1) := by
  rw [← lookup_rewrites, Table.lookup_of_mem (rewrites_sorted edges fates sourceRoot) inside, Option.getD_some]

theorem exists_row_of_collected {p : Path} {edit : Edit}
    (planned : edit ∈ collected (calls edges fates sourceRoot p)) :
    ∃ row ∈ rewrites edges fates sourceRoot, row.1.same p = true ∧ edit ∈ row.2 := by
  rw [← lookup_rewrites] at planned
  cases known : (rewrites edges fates sourceRoot).lookup Path.order p with
  | none => simp [known] at planned
  | some edits =>
    obtain ⟨row, inside, same, rfl⟩ := Table.mem_of_lookup _ _ _ _ known
    exact ⟨row, inside, Path.same_symm ((Path.order_eq_iff_same _ _).1 same), by simpa [known] using planned⟩

end

/-- The import of an edge has to be rewritten: it is written relative or rooted and names a file, both of them are
known to be somewhere, the importing one as it is and the imported one maybe as another, and this one has moved, or,
where the import is relative, the importing one. -/
structure Stale (fates : Fates) (edge : Edge) (origin target moved : Path) : Prop where
  written : edge.strategy ≠ .aliasPrefixed
  names : edge.target = some target
  importing : fates.lookup Path.order edge.file = none ∧ origin = edge.file ∨
    fates.lookup Path.order edge.file = some (.carried origin)
  imported : fates.lookup Path.order target = none ∧ moved = target ∨
    fates.lookup Path.order target = some (.carried moved) ∨
    fates.lookup Path.order target = some (.superseded moved)
  due : moved.same target = false ∨ edge.strategy = .relative ∧ origin.same edge.file = false

/-- What a specifier in a file stands for: a path that is reached from the source root where it starts with a
separator, and from the directory of the file where it does not. -/
inductive Denotes (sourceRoot origin : Path) : String -> List Component -> Prop
  | rooted {rest : String} {found : Path}
    (normal : (Path.mk "/").normalizeWithin (sourceRoot.join ⟨rest⟩) = some found) :
    Denotes sourceRoot origin ("/" ++ rest) found.components
  | relative {specifier : String} {directory found : Path} (unrooted : (Path.mk specifier).isAbsolute = false)
    (parent : origin.parent? = some directory)
    (normal : (Path.mk "/").normalizeWithin (directory.join ⟨specifier⟩) = some found) :
    Denotes sourceRoot origin specifier found.components

theorem originNow_eq_some_iff (fates : Fates) (file origin : Path) : originNow fates file = some origin ↔
    fates.lookup Path.order file = none ∧ origin = file ∨ fates.lookup Path.order file = some (.carried origin) := by
  unfold originNow
  cases fates.lookup Path.order file with
  | none => simp [eq_comm]
  | some fate => cases fate <;> simp

theorem targetNow_eq_some_iff (fates : Fates) (target moved : Path) : targetNow fates target = some moved ↔
    fates.lookup Path.order target = none ∧ moved = target ∨
      fates.lookup Path.order target = some (.carried moved) ∨
      fates.lookup Path.order target = some (.superseded moved) := by
  unfold targetNow
  cases fates.lookup Path.order target with
  | none => simp [eq_comm]
  | some fate => cases fate <;> simp

theorem editFor_eq_some_iff (fates : Fates) (sourceRoot : Path) (edge : Edge) (origin : Path) (edit : Edit) :
    editFor fates sourceRoot edge = some (origin, edit) ↔ ∃ target moved, Stale fates edge origin target moved ∧
      edit.raw = edge.raw ∧ edit.replacement ≠ edge.raw ∧
      replacementFor edge.strategy sourceRoot origin moved (keepsExtension edge.raw target) =
        some edit.replacement := by
  constructor
  · intro made
    unfold editFor at made
    split at made
    · cases made
    next unaliased =>
      split at made
      · cases made
      next target names =>
        split at made
        next origin' moved importing imported =>
          split at made
          · cases made
          next due =>
            split at made
            · cases made
            next replacement computed =>
              split at made
              · cases made
              next differs =>
                cases made
                refine ⟨target, moved, ⟨unaliased, names, (originNow_eq_some_iff _ _ _).1 importing,
                  (targetNow_eq_some_iff _ _ _).1 imported, ?_⟩, rfl, differs, computed⟩
                cases strategy : edge.strategy <;> cases same : moved.same target <;> simp_all
        · cases made
  · rintro ⟨target, moved, stale, raw, differs, computed⟩
    have due : ¬ (moved.same target && (edge.strategy = .rootRelative || origin.same edge.file)) = true := by
      rcases stale.due with moved' | ⟨relative, moved'⟩
      · simp [moved']
      · simp [relative, moved']
    unfold editFor
    simp only [if_neg stale.written, stale.names, (originNow_eq_some_iff _ _ _).2 stale.importing,
      (targetNow_eq_some_iff _ _ _).2 stale.imported, if_neg due, computed, if_neg differs]
    rw [← raw]

theorem mem_calls_iff (edges : List Edge) (fates : Fates) (sourceRoot p : Path) (edit : Edit) :
    edit ∈ calls edges fates sourceRoot p ↔ ∃ edge ∈ edges, ∃ origin target moved,
      Stale fates edge origin target moved ∧ p.same origin = true ∧ edit.raw = edge.raw ∧
      edit.replacement ≠ edge.raw ∧
      replacementFor edge.strategy sourceRoot origin moved (keepsExtension edge.raw target) =
        some edit.replacement := by
  unfold calls
  simp only [List.mem_map, List.mem_filter, List.mem_filterMap]
  constructor
  · rintro ⟨⟨origin, edit⟩, ⟨⟨edge, member, made⟩, same⟩, rfl⟩
    obtain ⟨target, moved, stale, known⟩ := (editFor_eq_some_iff _ _ _ _ _).1 made
    exact ⟨edge, member, origin, target, moved, stale, same, known⟩
  · rintro ⟨edge, member, origin, target, moved, stale, same, known⟩
    have made := (editFor_eq_some_iff fates sourceRoot edge origin edit).2 ⟨target, moved, stale, known⟩
    exact ⟨(origin, edit), ⟨⟨edge, member, made⟩, same⟩, rfl⟩

section

variable {target : Path} (top : target.components = [.root]) (keepExtension : Bool)

include top

theorem shown_top : (shown target keepExtension).components = [.root] := by
  have unnamed : target.fileName? = none := by simp [Path.fileName?, top]
  have plain : target.withExtension "" = target := by
    simp [Path.withExtension, Path.extension?, Path.stemThen, Path.stem?, unnamed]
  cases keepExtension with
  | true => exact top
  | false =>
    unfold shown
    rw [if_neg Bool.false_ne_true, plain, top]

theorem relative?_top (file : Path) : relative? file target keepExtension = none := by
  have none : ∀ directory, steps? directory [.root] = none := by
    intro directory
    cases directory with
    | nil => rfl
    | cons first rest => cases first <;> cases rest <;> rfl
  rw [relative?_eq]
  cases file.parent? <;> simp [shown_top top, none]

theorem rooted?_top {sourceRoot : Path} (absolute : sourceRoot.isAbsolute = true) :
    rooted? sourceRoot target keepExtension = none := by
  obtain ⟨after, own⟩ := Path.components_of_isAbsolute absolute
  unfold rooted?
  cases known : sourceRoot.below? (shown target keepExtension) with
  | none => rfl
  | some rest =>
    -- What is left below the source root would be less than nothing.
    have spelt := Path.components_of_below? absolute known
    rw [shown_top top, own] at spelt
    simp_all

end

theorem replacementFor_cases {strategy : Strategy} {sourceRoot origin target : Path} {keepExtension : Bool}
    {replacement : String}
    (known : replacementFor strategy sourceRoot origin target keepExtension = some replacement) :
    rooted? sourceRoot target keepExtension = some replacement ∨
      relative? origin target keepExtension = some replacement := by
  unfold replacementFor at known
  cases strategy with
  | rootRelative =>
    cases rooted : rooted? sourceRoot target keepExtension with
    | none => exact .inr (by simpa [rooted] using known)
    | some found => exact .inl (by simpa [rooted] using known)
  | _ => exact .inr known

theorem wayText_relative (steps : List String) : (Path.mk (wayText steps)).isAbsolute = false := by
  unfold Path.isAbsolute
  rw [toList_wayText]
  split
  next dots =>
    obtain ⟨rest, dotted⟩ := dots
    rw [← dotted]
    simp [Path.separator]
  · simp [Path.separator]

theorem relative?_unrooted {file target : Path} {keepExtension : Bool} {specifier : String}
    (known : relative? file target keepExtension = some specifier) : (Path.mk specifier).isAbsolute = false := by
  rw [relative?_eq] at known
  obtain ⟨directory, -, known⟩ := Option.bind_eq_some_iff.1 known
  obtain ⟨steps, -, rfl⟩ := Option.map_eq_some_iff.1 known
  exact wayText_relative steps

theorem plain_within {p : Path} (plain : p.Plain) : (Path.mk "/").Within p := by
  have top : (Path.mk "/").components = [.root] := by decide
  obtain ⟨names, spelt⟩ := plain
  exact ⟨names, by rw [spelt, top, List.singleton_append]⟩

section

variable {sourceRoot origin target : Path} (imported : (Path.mk "/").Under target)
  (tidy : target.Tidy) {keepExtension : Bool} {replacement : String}

include imported tidy

theorem denotes_rooted (plain : sourceRoot.Plain)
    (known : rooted? sourceRoot target keepExtension = some replacement) :
    Denotes sourceRoot origin replacement (meant target keepExtension) := by
  obtain ⟨rest, found, rfl, -, -, normal, same⟩ :=
    rooted?_returns ⟨[], by decide⟩ imported tidy.dot tidy.dots (plain_within plain) known
  rw [← same]
  exact .rooted normal

theorem denotes_relative (importing : origin.Plain)
    (known : relative? origin target keepExtension = some replacement) :
    Denotes sourceRoot origin replacement (meant target keepExtension) := by
  rcases importing.top_or_under with top | under
  · -- No specifier is written for what has no directory.
    have none : origin.parent?.map Path.components = none := by rw [importing.parent_components, if_pos top]
    rw [relative?_eq, Option.map_eq_none_iff.1 none] at known
    cases known
  · obtain ⟨directory, found, parent, normal, same⟩ :=
      relative?_returns ⟨[], by decide⟩ imported tidy.dot tidy.dots under known
    rw [← same]
    exact .relative (relative?_unrooted known) parent normal

end

theorem denotes_of_replacementFor {strategy : Strategy} {sourceRoot origin target : Path} (plain : sourceRoot.Plain)
    (importing : origin.Plain) (tidy : target.Tidy) {keepExtension : Bool} {replacement : String}
    (known : replacementFor strategy sourceRoot origin target keepExtension = some replacement) :
    Denotes sourceRoot origin replacement (meant target keepExtension) := by
  rcases tidy.plain.top_or_under with top | imported <;> rcases replacementFor_cases known with rooted | relative
  · cases (rooted?_top top _ plain.isAbsolute).symm.trans rooted
  · cases (relative?_top top _ origin).symm.trans relative
  · exact denotes_rooted imported tidy plain rooted
  · exact denotes_relative imported tidy importing relative

section

variable {target moved : Path} (tidy : target.Tidy) (same : target.same moved = true)

include same

theorem meant_congr (keepExtension : Bool) : meant target keepExtension = meant moved keepExtension := by
  unfold meant Path.stem?
  rw [Path.fileName?_congr same, eq_of_beq same]

theorem keepsExtension_congr (raw : String) : keepsExtension raw target = keepsExtension raw moved := by
  unfold keepsExtension Path.extension?
  rw [Path.fileName?_congr same]

include tidy

theorem Path.Tidy.congr : moved.Tidy := by
  have stems : target.stem? = moved.stem? := by rw [Path.stem?, Path.stem?, Path.fileName?_congr same]
  exact ⟨tidy.plain.congr same, stems ▸ tidy.dot, stems ▸ tidy.dots⟩

theorem shown_congr (keepExtension : Bool) :
    (shown target keepExtension).same (shown moved keepExtension) = true := by
  have equal := eq_of_beq same
  have tidy' := Path.Tidy.congr tidy same
  unfold Path.same
  rw [beq_iff_eq]
  rcases tidy.plain.top_or_under with top | under
  · rw [shown_top top, shown_top (equal ▸ top)]
  · obtain ⟨names, filled, spelt⟩ := id under
    have under' : (Path.mk "/").Under moved := ⟨names, filled, equal ▸ spelt⟩
    rw [(shown_under under tidy.dot tidy.dots keepExtension).1, meant_congr same,
      (shown_under under' tidy'.dot tidy'.dots keepExtension).1]

theorem replacementFor_congr {sourceRoot origin other : Path} (absolute : sourceRoot.isAbsolute = true)
    (plain : origin.Plain) (same' : origin.same other = true) (strategy : Strategy) (keepExtension : Bool) :
    replacementFor strategy sourceRoot origin target keepExtension =
      replacementFor strategy sourceRoot other moved keepExtension := by
  have shown := shown_congr tidy same keepExtension
  have relative : relative? origin target keepExtension = relative? other moved keepExtension := by
    have spelled : ∀ file target : Path, relative? file target keepExtension =
        (file.parent?.map Path.components).bind fun directory =>
          (steps? directory (Specifier.shown target keepExtension).components).map wayText := by
      intro file target
      rw [relative?_eq]
      cases file.parent? <;> rfl
    rw [spelled, spelled, plain.parent_components, (plain.congr same').parent_components, eq_of_beq same',
      eq_of_beq shown]
  have rooted : rooted? sourceRoot target keepExtension = rooted? sourceRoot moved keepExtension := by
    have spelled : ∀ target : Path, rooted? sourceRoot target keepExtension =
        ((sourceRoot.below? (Specifier.shown target keepExtension)).map Path.components).bind fun rest =>
          if rest = [] then none else some ("/" ++ "/".intercalate (rest.map Component.text)) := by
      intro target
      unfold rooted?
      cases sourceRoot.below? (Specifier.shown target keepExtension) <;> rfl
    rw [spelled, spelled, Path.below?_congr absolute shown]
  unfold replacementFor
  rw [relative, rooted]

end

section

variable {edges : List Edge} {fates : Fates} {sourceRoot : Path} (plain : sourceRoot.Plain)
  (files : ∀ edge ∈ edges, edge.file.Plain) (targets : ∀ edge ∈ edges, ∀ target ∈ edge.target, target.Tidy)
  (moves : ∀ row ∈ fates, ∀ path, row.2 = .carried path ∨ row.2 = .superseded path -> path.Tidy)

include files moves in
theorem Stale.origin_plain {edge : Edge} (member : edge ∈ edges) {origin target moved : Path}
    (stale : Stale fates edge origin target moved) : origin.Plain := by
  rcases stale.importing with ⟨-, rfl⟩ | carried
  · exact files edge member
  · obtain ⟨row, inside, -, fate⟩ := Table.mem_of_lookup _ _ _ _ carried
    exact (moves row inside origin (.inl fate)).plain

include targets moves in
theorem Stale.moved_tidy {edge : Edge} (member : edge ∈ edges) {origin target moved : Path}
    (stale : Stale fates edge origin target moved) : moved.Tidy := by
  rcases stale.imported with ⟨-, rfl⟩ | carried | superseded
  · exact targets edge member moved stale.names
  · obtain ⟨row, inside, -, fate⟩ := Table.mem_of_lookup _ _ _ _ carried
    exact moves row inside moved (.inl fate)
  · obtain ⟨row, inside, -, fate⟩ := Table.mem_of_lookup _ _ _ _ superseded
    exact moves row inside moved (.inr fate)

theorem Stale.moved_same {edge other : Edge} {origin origin' target target' moved moved' : Path}
    (stale : Stale fates edge origin target moved) (stale' : Stale fates other origin' target' moved')
    (same : target.same target' = true) : moved.same moved' = true := by
  have known := (targetNow_eq_some_iff _ _ _).2 stale.imported
  have known' := (targetNow_eq_some_iff _ _ _).2 stale'.imported
  unfold targetNow at known known'
  rw [Table.lookup_congr same] at known
  cases held : fates.lookup Path.order target' with
  | none => simp_all
  | some fate => cases fate <;> simp_all [Path.same]

include plain files targets moves

theorem call_justified {p : Path} {edit : Edit} (called : edit ∈ calls edges fates sourceRoot p) :
    edit.replacement ≠ edit.raw ∧ ∃ edge ∈ edges, edge.raw = edit.raw ∧ ∃ origin target moved,
      Stale fates edge origin target moved ∧ origin.same p = true ∧
      Denotes sourceRoot p edit.replacement (meant moved (keepsExtension edge.raw target)) := by
  obtain ⟨edge, member, origin, target, moved, stale, same, raw, differs, computed⟩ :=
    (mem_calls_iff _ _ _ _ _).1 called
  have same' := Path.same_symm same
  have importing := stale.origin_plain files moves member
  have tidy := stale.moved_tidy targets moves member
  have own : moved.same moved = true := by simp [Path.same]
  rw [replacementFor_congr tidy own plain.isAbsolute importing same'] at computed
  exact ⟨by rwa [raw], edge, member, raw.symm, origin, target, moved, stale, same',
    denotes_of_replacementFor plain (importing.congr same') tidy computed⟩

theorem calls_agree
    (agree : ∀ first ∈ edges, ∀ second ∈ edges, first.file.same second.file = true -> first.raw = second.raw ->
      first.strategy = second.strategy ∧ first.target.map Path.components = second.target.map Path.components)
    (apart : ∀ first ∈ edges, ∀ second ∈ edges, ∀ origin origin', originNow fates first.file = some origin ->
      originNow fates second.file = some origin' -> origin.same origin' = true ->
      first.file.same second.file = true)
    {p : Path} {edit other : Edit} (called : edit ∈ calls edges fates sourceRoot p)
    (called' : other ∈ calls edges fates sourceRoot p) (raws : edit.raw = other.raw) : edit = other := by
  obtain ⟨first, member, origin, target, moved, stale, same, raw, -, computed⟩ := (mem_calls_iff _ _ _ _ _).1 called
  obtain ⟨second, member', origin', target', moved', stale', same', raw', -, computed'⟩ :=
    (mem_calls_iff _ _ _ _ _).1 called'
  have origins := Path.same_trans (Path.same_symm same) same'
  have file := apart first member second member' origin origin' ((originNow_eq_some_iff _ _ _).2 stale.importing)
    ((originNow_eq_some_iff _ _ _).2 stale'.importing) origins
  have equal : first.raw = second.raw := by rw [← raw, raws, raw']
  obtain ⟨strategy, named⟩ := agree first member second member' file equal
  have targets' : target.same target' = true := by
    rw [stale.names, stale'.names] at named
    simpa [Path.same] using named
  have tidy := stale.moved_tidy targets moves member
  have importing := stale.origin_plain files moves member
  -- Both edits are computed from the same.
  rw [replacementFor_congr tidy (stale.moved_same stale' targets') plain.isAbsolute importing origins, strategy,
    keepsExtension_congr targets', equal, computed'] at computed
  exact congrArg₂ Edit.mk raws (Option.some.inj computed).symm

/-- What is planned is due, and what is due is planned. Each edit of a file replaces the specifier of a stale import
by another one that denotes what the target became; and where the importing file and the specifier tell what is
imported, and no two files end as one, every stale import with another specifier has its edit. -/
theorem rewrites_exact : (rewrites edges fates sourceRoot).Sorted Path.order ∧
    (∀ row ∈ rewrites edges fates sourceRoot, (row.2.map Edit.raw).Nodup ∧ ∀ edit ∈ row.2,
      edit.replacement ≠ edit.raw ∧ ∃ edge ∈ edges, edge.raw = edit.raw ∧ ∃ origin target moved,
        Stale fates edge origin target moved ∧ origin.same row.1 = true ∧
        Denotes sourceRoot row.1 edit.replacement (meant moved (keepsExtension edge.raw target))) ∧
    ((∀ first ∈ edges, ∀ second ∈ edges, first.file.same second.file = true -> first.raw = second.raw ->
        first.strategy = second.strategy ∧
        first.target.map Path.components = second.target.map Path.components) ->
      (∀ first ∈ edges, ∀ second ∈ edges, ∀ origin origin', originNow fates first.file = some origin ->
        originNow fates second.file = some origin' -> origin.same origin' = true ->
        first.file.same second.file = true) ->
      ∀ edge ∈ edges, ∀ origin target moved replacement, Stale fates edge origin target moved ->
        replacementFor edge.strategy sourceRoot origin moved (keepsExtension edge.raw target) = some replacement ->
        replacement ≠ edge.raw ->
        ∃ row ∈ rewrites edges fates sourceRoot, row.1.same origin = true ∧ ⟨edge.raw, replacement⟩ ∈ row.2) := by
  refine ⟨rewrites_sorted _ _ _, fun row inside => ?_, ?_⟩
  · rw [rewrites_row _ _ _ inside]
    refine ⟨nodup_collected _, fun edit planned => ?_⟩
    have first := (mem_collected_iff _ _).1 planned
    exact call_justified plain files targets moves (List.mem_of_find?_eq_some first)
  · intro agree apart edge member origin target moved replacement stale computed differs
    have called : ⟨edge.raw, replacement⟩ ∈ calls edges fates sourceRoot origin :=
      (mem_calls_iff _ _ _ _ _).2 ⟨edge, member, origin, target, moved, stale, by simp [Path.same], rfl, differs,
        computed⟩
    apply exists_row_of_collected
    rw [mem_collected_iff]
    -- Some edit for the specifier is collected, and it is no other.
    cases found : (calls edges fates sourceRoot origin).find? fun other => other.raw == edge.raw with
    | none => simpa using List.find?_eq_none.1 found _ called
    | some other =>
      have raw := List.find?_some found
      rw [calls_agree plain files targets moves agree apart (List.mem_of_find?_eq_some found) called
        (by simpa using raw)]

end

def neighbour : Edge :=
  ⟨⟨"/project/downloads/app.ts"⟩, "./card", 1, .relative, some ⟨"/project/downloads/card.ts"⟩, none⟩

def parted : Fates :=
  [(⟨"/project/downloads/app.ts"⟩, .carried ⟨"/project/src/app.ts"⟩),
    (⟨"/project/downloads/card.ts"⟩, .superseded ⟨"/project/src/lib/card.ts"⟩)]

theorem parted_exact : (Path.mk "/project/src").Plain ∧ (∀ edge ∈ [neighbour], edge.file.Plain) ∧
    (∀ edge ∈ [neighbour], ∀ target ∈ edge.target, target.Tidy) ∧
    (∀ row ∈ parted, ∀ path, row.2 = .carried path ∨ row.2 = .superseded path -> path.Tidy) ∧
    ∃ row ∈ rewrites [neighbour] parted ⟨"/project/src"⟩, row.1.same ⟨"/project/src/app.ts"⟩ = true ∧
      ⟨"./card", "./lib/card"⟩ ∈ row.2 ∧ Denotes ⟨"/project/src"⟩ row.1 "./lib/card"
        [.root, .name "project", .name "src", .name "lib", .name "card"] := by
  have computed : (Path.mk "/project/src").Plain ∧ neighbour.file.Plain ∧
      (Path.mk "/project/downloads/card.ts").Plain ∧ (Path.mk "/project/src/app.ts").Plain ∧
      (Path.mk "/project/src/lib/card.ts").Plain ∧ (Path.mk "/project/downloads/card.ts").stem? = some "card" ∧
      (Path.mk "/project/src/app.ts").stem? = some "app" ∧
      (Path.mk "/project/src/lib/card.ts").stem? = some "card" := by decide +kernel
  have moved : originNow parted neighbour.file = some ⟨"/project/src/app.ts"⟩ ∧
      targetNow parted ⟨"/project/downloads/card.ts"⟩ = some ⟨"/project/src/lib/card.ts"⟩ ∧
      (Path.mk "/project/src/lib/card.ts").same ⟨"/project/downloads/card.ts"⟩ = false ∧
      replacementFor .relative ⟨"/project/src"⟩ ⟨"/project/src/app.ts"⟩ ⟨"/project/src/lib/card.ts"⟩
        (keepsExtension "./card" ⟨"/project/downloads/card.ts"⟩) = some "./lib/card" ∧
      meant ⟨"/project/src/lib/card.ts"⟩ (keepsExtension "./card" ⟨"/project/downloads/card.ts"⟩) =
        [.root, .name "project", .name "src", .name "lib", .name "card"] := by decide +kernel
  obtain ⟨plain, file, card, app, lib, stem, stem', stem''⟩ := computed
  obtain ⟨importing, imported, apart, written, spelt⟩ := moved
  have files : ∀ edge ∈ [neighbour], edge.file.Plain := by simpa using file
  have targets : ∀ edge ∈ [neighbour], ∀ target ∈ edge.target, target.Tidy := by
    intro edge member target named
    obtain rfl : edge = neighbour := by simpa using member
    cases named
    exact ⟨card, by simp [stem], by simp [stem]⟩
  have moves : ∀ row ∈ parted, ∀ path, row.2 = .carried path ∨ row.2 = .superseded path -> path.Tidy := by
    intro row inside path fate
    simp only [parted, List.mem_cons, List.not_mem_nil, or_false] at inside
    rcases inside with rfl | rfl <;> rcases fate with fate | fate <;> cases fate
    · exact ⟨app, by simp [stem'], by simp [stem']⟩
    · exact ⟨lib, by simp [stem''], by simp [stem'']⟩
  -- The import is stale, since its target came to another place; its edit is then the only one of its row.
  have exactly := rewrites_exact plain files targets moves
  have stale : Stale parted neighbour ⟨"/project/src/app.ts"⟩ ⟨"/project/downloads/card.ts"⟩
      ⟨"/project/src/lib/card.ts"⟩ :=
    ⟨by simp [neighbour], rfl, (originNow_eq_some_iff _ _ _).1 importing, (targetNow_eq_some_iff _ _ _).1 imported,
      .inl apart⟩
  obtain ⟨row, inside, same, planned⟩ := exactly.2.2 (by simp) (by simp [Path.same]) neighbour (by simp) _ _ _ _ stale
    written (by simp [neighbour])
  refine ⟨plain, files, targets, moves, row, inside, same, planned, ?_⟩
  obtain ⟨-, edge, member, -, origin, target, moved, stale', -, denotes⟩ := (exactly.2.1 row inside).2 _ planned
  obtain rfl : edge = neighbour := by simpa using member
  obtain rfl : ⟨"/project/downloads/card.ts"⟩ = target := Option.some.inj stale'.names
  have known := (targetNow_eq_some_iff _ _ _).2 stale'.imported
  rw [imported] at known
  obtain rfl := Option.some.inj known
  rw [← spelt]
  exact denotes

end Specifier

end Stowage

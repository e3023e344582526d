import Stowage.Proofs.Disk.Adding
import Stowage.Proofs.Disk.Checking
import Stowage.Proofs.Disk.Dangling
import Stowage.Proofs.Path.Stems
import Stowage.Proofs.Relocation.Labels

set_option autoImplicit false

namespace Stowage

def LedgerEntry.aside? (entry : LedgerEntry) : Option Path :=
  match entry.action with
  | .relocate .updateNewer => entry.backup
  | .relocate .conflict => entry.destination
  | .backup => entry.destination
  | _ => none

def Ledger.asides (ledger : Ledger) : List Path := ledger.filterMap LedgerEntry.aside?

theorem Ledger.asides_concat (ledger : Ledger) (entry : LedgerEntry) :
    Ledger.asides (ledger ++ [entry]) = ledger.asides ++ entry.aside?.toList := by
  rw [asides, List.filterMap_append]
  cases own : entry.aside? <;> simp [asides, own]

namespace Carrier

section

variable (carrier : Carrier) (stamp : Path.separator ∉ carrier.stamp.toList) {label : String}
  (whole : Path.separator ∉ label.toList) (path : Path) (number : Nat)

include stamp whole

theorem siblingAt_components : (carrier.siblingAt path label number).components =
    (path.parent?.getD ⟨"."⟩).components ++ [Path.lastComponent (carrier.siblingName path label number)] := by
  obtain ⟨free, long⟩ := carrier.siblingName_whole stamp whole path number
  exact Path.components_join_last free (Path.spelled_last free (by omega)) _

theorem siblingAt_parent : ∃ above, (carrier.siblingAt path label number).parent? = some above ∧
    above.same (path.parent?.getD ⟨"."⟩) = true := by
  obtain ⟨above, known, spelt⟩ := Path.parent?_of_name (Path.lastComponent_ne_root _)
    (carrier.siblingAt_components stamp whole path number)
  exact ⟨above, known, by rw [Path.same, spelt, beq_self_eq_true]⟩

theorem siblingAt_ended : (carrier.siblingAt path label number).endsInSeparator = false := by
  obtain ⟨free, long⟩ := carrier.siblingName_whole stamp whole path number
  refine Path.endsInSeparator_join _ free ?_
  intro empty
  rw [empty] at long
  simp at long

theorem siblingAt_extension {extension : String} (ends : path.extension? = some extension) :
    (carrier.siblingAt path label number).extension? = some extension := by
  obtain ⟨front, long, own⟩ : ∃ front : List Char, 2 ≤ front.length ∧
      (carrier.siblingName path label number).toList = front ++ '.' :: extension.toList := by
    have dot : ".".toList = ['.'] := rfl
    refine ⟨(path.stem?.getD "" ++ "." ++ label ++ "." ++ carrier.stamp ++
      (if number = 0 then "" else "_" ++ toString number)).toList, ?_, ?_⟩
    · simp only [String.toList_append, dot, List.length_append, List.length_singleton]
      omega
    · have ending : path.ending = "." ++ extension := by rw [Path.ending, ends, Option.map_some, Option.getD_some]
      simp only [siblingName_parts, ending, String.toList_append, dot, List.append_assoc, List.singleton_append]
  have named : Path.IsName (carrier.siblingName path label number) := by
    obtain ⟨free, -⟩ := carrier.siblingName_whole stamp whole path number
    refine Path.isName_of_long free ?_
    rw [own, List.length_append, List.length_cons]
    omega
  have filled : front ≠ [] := by
    rintro rfl
    simp at long
  obtain ⟨-, -, dotless, -⟩ := Path.extension?_eq_some_iff.1 ends
  refine Path.extension?_eq_some_iff.2 ⟨front, filled, dotless, ?_⟩
  rw [siblingAt, Path.fileName?_join _ named, ← own, String.ofList_toList]

theorem siblingAt_of_same {other : String} (whole' : Path.separator ∉ other.toList) {number' : Nat}
    (same : (carrier.siblingAt path label number).same (carrier.siblingAt path other number') = true) :
    carrier.siblingAt path label number = carrier.siblingAt path other number' := by
  have spelt : (carrier.siblingAt path label number).components = (carrier.siblingAt path other number').components :=
    eq_of_beq same
  rw [carrier.siblingAt_components stamp whole, carrier.siblingAt_components stamp whole'] at spelt
  have names := Path.lastComponent_injective (List.singleton_inj.1 (List.append_cancel_left spelt))
  rw [siblingAt, siblingAt, names]

end

/-- What the search for a name beside a path comes to. -/
structure Fresh (carrier : Carrier) (d : Disk) (path : Path) (label : String) (aside : Path) : Prop where
  -- The search tries one number after another, and ends before it runs out of nodes.
  first : ∃ number ≤ d.nodes.length, aside = carrier.siblingAt path label number ∧ d.isThere aside = false ∧
    ∀ earlier < number, d.isThere (carrier.siblingAt path label earlier) = true
  -- A path that hangs in no directory counts as one of the directory that relative paths start from.
  beside : ∃ above, aside.parent? = some above ∧ above.same (path.parent?.getD ⟨"."⟩) = true
  ending : ∀ extension, path.extension? = some extension -> aside.extension? = some extension
  -- Nothing is there, and not only for want of a permission to search for it.
  free : { d with privileged := true }.isThere aside = false
  -- A name that is taken is given nevertheless exactly where it is that of a link that leads nowhere, and the
  -- first by which nothing is found.
  again : ∀ taken, d.stands taken = true -> (aside = taken ↔ d.dangles taken = true ∧
    ∃ number, taken = carrier.siblingAt path label number ∧
      ∀ earlier < number, d.isThere (carrier.siblingAt path label earlier) = true)

theorem sibling_is_fresh (carrier : Carrier) (stamp : Path.separator ∉ carrier.stamp.toList) (d : Disk)
    (sound : d.Sound) (searchable : d.Searchable) (path : Path) (label : String)
    (whole : Path.separator ∉ label.toList) : Fresh carrier d path label (carrier.sibling d path label) := by
  obtain ⟨number, few, own, free, taken⟩ := carrier.sibling_first d sound path label
  have known := carrier.sibling_eq_iff d sound path label
  rw [own] at known ⊢
  exact {
    first := ⟨number, few, rfl, free, taken⟩
    beside := carrier.siblingAt_parent stamp whole path number
    ending := fun extension ends => carrier.siblingAt_extension stamp whole path number ends
    free := Bool.eq_false_iff.2 (mt searchable.isThere (Bool.eq_false_iff.1 free))
    again := fun other stands => by
      rw [known]
      refine and_congr_left fun ⟨number', named, _⟩ => ?_
      have ended := carrier.siblingAt_ended stamp whole path number'
      rw [← named] at ended
      rw [Disk.dangles_eq ended stands, Bool.not_eq_true'] }

theorem finish_asides (carrier : Carrier) (site : Site) (decision : Decision) (source landed : Path)
    (backup : Option Path) (incomplete : Option RelocationError) :
    (carrier.finish site decision source landed backup incomplete).2.ledger.asides = site.ledger.asides ++
      (carrier.finish site decision source landed backup incomplete).1.entry.aside?.toList :=
  Ledger.asides_concat _ _

theorem execute_asides (carrier : Carrier) (site : Site) (decision : Decision) (source destination : Path) :
    (carrier.execute site decision source destination).2.ledger.asides = site.ledger.asides ∨
      ∃ label ∈ ["backup", "conflict"], ∃ d : Disk,
        (d = site.disk ∨ d = (ensureParent site.disk destination).2) ∧
        (carrier.execute site decision source destination).2.ledger.asides =
          site.ledger.asides ++ [carrier.sibling d destination label] := by
  unfold execute
  split
  · exact .inl rfl
  -- Only an update and a conflict note a file aside, each under its own label.
  cases decision with
  | move =>
    refine .inl ?_
    simp only [executeMove]
    split
    · rfl
    · split
      · rfl
      · rw [finish_asides]
        exact List.append_nil _
  | updateNewer =>
    simp only [executeUpdate]
    split
    · exact .inl rfl
    · refine .inr ⟨"backup", by simp, _, .inl rfl, ?_⟩
      split
      · exact Ledger.asides_concat _ _
      · rw [finish_asides]
        rfl
  | skipOlder | identical =>
    refine .inl ?_
    simp only [executeDrop]
    split
    · rfl
    · rw [finish_asides]
      exact List.append_nil _
  | conflict =>
    simp only [executeConflict]
    split
    · exact .inl rfl
    next disk made =>
      split
      · exact .inl rfl
      · refine .inr ⟨"conflict", by simp, disk, .inr (by rw [made]), ?_⟩
        rw [finish_asides]
        rfl

/-- One destination relocated to again and again, whatever else becomes of the disk in between, where all that
was put beside it stays in place each time. -/
inductive Visited (carrier : Carrier) (destination : Path) (stays : Disk -> Path -> Prop) : Site -> Prop
  | start (disk : Disk) : Visited carrier destination stays ⟨disk, []⟩
  | meanwhile {site : Site} (disk : Disk) (earlier : Visited carrier destination stays site) :
    Visited carrier destination stays { site with disk := disk }
  | turn {site : Site} (decision : Decision) (source : Path) (earlier : Visited carrier destination stays site)
    (sound : site.disk.Sound) (searchable : site.disk.Searchable)
    (stay : ∀ aside ∈ site.ledger.asides, stays site.disk aside) :
    Visited carrier destination stays (carrier.execute site decision source destination).2

section

variable {carrier : Carrier} {destination : Path} {site : Site}

theorem Visited.siblings {stays : Disk -> Path -> Prop} (visited : carrier.Visited destination stays site)
    (aside : Path) (member : aside ∈ site.ledger.asides) :
    ∃ label ∈ ["backup", "conflict"], ∃ number, aside = carrier.siblingAt destination label number := by
  induction visited with
  | start => cases member
  | meanwhile _ _ ih => exact ih member
  | @turn site decision source _ _ _ _ ih =>
    rcases carrier.execute_asides site decision source destination with same | ⟨label, known, d, -, more⟩
    · exact ih (same ▸ member)
    · rw [more] at member
      rcases List.mem_append.1 member with before | new
      · exact ih before
      · exact ⟨label, known, _, List.mem_singleton.1 new⟩

theorem Visited.differs (stamp : Path.separator ∉ carrier.stamp.toList)
    (visited : carrier.Visited destination (fun d aside => d.stands aside = true ∧ d.dangles aside = false) site) :
    site.ledger.asides.Pairwise fun earlier later => earlier.same later = false := by
  have labels : ∀ label ∈ ["backup", "conflict"], Path.separator ∉ label.toList := by decide
  induction visited with
  | start => exact .nil
  | meanwhile _ _ ih => exact ih
  | @turn site decision source earlier sound _ stay ih =>
    rcases carrier.execute_asides site decision source destination with same | ⟨label, known, d, searched, more⟩
    · rw [same]
      exact ih
    rw [more, List.pairwise_append]
    refine ⟨ih, List.pairwise_singleton _ _, fun aside member new here => ?_⟩
    obtain rfl := List.mem_singleton.1 here
    -- By the earlier name something is found in the state that is searched, by the new one nothing.
    have grown : site.disk.Extends d := by
      rcases searched with rfl | rfl
      · exact .refl sound
      · exact ensureParent_extends sound destination
    obtain ⟨label', known', number, own⟩ := earlier.siblings aside member
    obtain ⟨stands, leads⟩ := stay aside member
    have ended : aside.endsInSeparator = false :=
      own ▸ carrier.siblingAt_ended stamp (labels label' known') destination number
    rw [Disk.dangles_eq ended stands, Bool.not_eq_false'] at leads
    have there := grown.isThere leads
    have free := carrier.sibling_free d grown.sound destination label
    rw [Bool.eq_false_iff]
    intro same
    obtain ⟨number', named⟩ : ∃ number', carrier.sibling d destination label =
      carrier.siblingAt destination label number' := ⟨_, rfl⟩
    rw [own, named] at same
    rw [named, ← carrier.siblingAt_of_same stamp (labels label' known') destination number (labels label known) same,
      ← own, there] at free
    cases free

end

/-- The search for a name beside a path ends with a fresh one, and what is put beside one destination turn after turn
has a name of its own each time, as long as the earlier ones stay in place and are no links that lead nowhere. -/
theorem asides_fresh_and_apart (carrier : Carrier) (stamp : Path.separator ∉ carrier.stamp.toList) :
    (∀ (d : Disk) (path : Path) (label : String), d.Sound -> d.Searchable -> Path.separator ∉ label.toList ->
      Fresh carrier d path label (carrier.sibling d path label)) ∧
    ∀ (destination : Path) (site : Site),
      carrier.Visited destination (fun d aside => d.stands aside = true ∧ d.dangles aside = false) site ->
      site.ledger.asides.Pairwise fun earlier later => earlier.same later = false :=
  ⟨fun d path label sound searchable whole => carrier.sibling_is_fresh stamp d sound searchable path label whole,
    fun _ _ visited => visited.differs stamp⟩

def contested (staged : Node) : Disk where
  tree := .row "" (some (.folder 0o755 ⟨1, 0⟩))
    (.row "src" (some (.folder 0o755 ⟨1, 0⟩)) (.row "a.ts" (some (.file "theirs".toUTF8 0o644 ⟨1, 0⟩)) .bare .bare)
      (.row "downloads" (some (.folder 0o755 ⟨1, 0⟩))
        (.row "one" (some (.folder 0o755 ⟨1, 0⟩)) (.row "a.ts" (some staged) .bare
            (.row "real.ts" (some (.file "one".toUTF8 0o644 ⟨1, 0⟩)) .bare .bare))
          (.row "two" (some (.folder 0o755 ⟨1, 0⟩)) (.row "a.ts" (some staged) .bare
              (.row "real.ts" (some (.file "two".toUTF8 0o644 ⟨1, 0⟩)) .bare .bare)) .bare)) .bare)) .bare
  home := []
  privileged := false
  now := ⟨2, 0⟩

def contestedOnce (staged : Node) : Site :=
  (Carrier.execute ⟨"s", []⟩ ⟨contested staged, []⟩ .conflict ⟨"/downloads/one/a.ts"⟩ ⟨"/src/a.ts"⟩).2

def contestedTwice (staged : Node) : Site :=
  (Carrier.execute ⟨"s", []⟩ (contestedOnce staged) .conflict ⟨"/downloads/two/a.ts"⟩ ⟨"/src/a.ts"⟩).2

theorem contestedTwice_visited {staged : Node} {stays : Disk -> Path -> Prop} (sound : (contested staged).Sound)
    (searchable : (contested staged).Searchable) (sound' : (contestedOnce staged).disk.Sound)
    (searchable' : (contestedOnce staged).disk.Searchable)
    (stay : ∀ aside ∈ (contestedOnce staged).ledger.asides, stays (contestedOnce staged).disk aside) :
    Carrier.Visited ⟨"s", []⟩ ⟨"/src/a.ts"⟩ stays (contestedTwice staged) := by
  have before : ∀ aside ∈ (Site.ledger ⟨contested staged, []⟩).asides, stays (contested staged) aside := by
    simp [Ledger.asides]
  have first : Carrier.Visited ⟨"s", []⟩ ⟨"/src/a.ts"⟩ stays (contestedOnce staged) :=
    (Visited.start (contested staged)).turn .conflict ⟨"/downloads/one/a.ts"⟩ sound searchable before
  exact first.turn .conflict ⟨"/downloads/two/a.ts"⟩ sound' searchable' stay

theorem lasting_links_apart :
    Carrier.Visited ⟨"s", []⟩ ⟨"/src/a.ts"⟩ (fun d aside => d.stands aside = true ∧ d.dangles aside = false)
      (contestedTwice (.link "/downloads/one/real.ts")) ∧
    (contestedTwice (.link "/downloads/one/real.ts")).ledger.asides =
      [⟨"/src/a.conflict.s.ts"⟩, ⟨"/src/a.conflict.s_1.ts"⟩] ∧
    Fresh ⟨"s", []⟩ (contestedTwice (.link "/downloads/one/real.ts")).disk ⟨"/src/a.ts"⟩ "conflict"
      ⟨"/src/a.conflict.s_2.ts"⟩ ∧
    (Path.mk "/src/a.conflict.s.ts").same ⟨"/src/a.conflict.s_1.ts"⟩ = false := by
  have computed : (contested (.link "/downloads/one/real.ts")).Sound ∧
      (contested (.link "/downloads/one/real.ts")).Searchable ∧
      (contestedOnce (.link "/downloads/one/real.ts")).disk.Sound ∧
      (contestedOnce (.link "/downloads/one/real.ts")).disk.Searchable ∧
      (∀ aside ∈ (contestedOnce (.link "/downloads/one/real.ts")).ledger.asides,
        (contestedOnce (.link "/downloads/one/real.ts")).disk.stands aside = true ∧
          (contestedOnce (.link "/downloads/one/real.ts")).disk.dangles aside = false) ∧
      (contestedTwice (.link "/downloads/one/real.ts")).disk.Sound ∧
      (contestedTwice (.link "/downloads/one/real.ts")).disk.Searchable ∧
      (contestedTwice (.link "/downloads/one/real.ts")).ledger.asides =
        [⟨"/src/a.conflict.s.ts"⟩, ⟨"/src/a.conflict.s_1.ts"⟩] ∧
      Carrier.sibling ⟨"s", []⟩ (contestedTwice (.link "/downloads/one/real.ts")).disk ⟨"/src/a.ts"⟩ "conflict" =
        ⟨"/src/a.conflict.s_2.ts"⟩ := by
    decide +kernel
  obtain ⟨sound, searchable, sound', searchable', stay, sound'', searchable'', asides, next'⟩ := computed
  -- Both links lead to a file that stays, so that the names given stand.
  have visited : Carrier.Visited ⟨"s", []⟩ ⟨"/src/a.ts"⟩
      (fun d aside => d.stands aside = true ∧ d.dangles aside = false)
      (contestedTwice (.link "/downloads/one/real.ts")) :=
    contestedTwice_visited sound searchable sound' searchable' stay
  obtain ⟨fresh, apart⟩ := asides_fresh_and_apart ⟨"s", []⟩ (by decide)
  have differ := apart _ _ visited
  have fresh' := fresh _ ⟨"/src/a.ts"⟩ "conflict" sound'' searchable'' (by decide)
  rw [next'] at fresh'
  rw [asides, List.pairwise_pair] at differ
  exact ⟨visited, asides, fresh', differ⟩

theorem not_asides_always_apart : ¬ ∀ (carrier : Carrier) (destination : Path) (site : Site),
    Path.separator ∉ carrier.stamp.toList ->
    carrier.Visited destination (fun d aside => d.stands aside = true) site ->
    site.ledger.asides.Pairwise fun earlier later => earlier.same later = false := by
  intro always
  have computed : (contested (.link "real.ts")).Sound ∧ (contested (.link "real.ts")).Searchable ∧
      (contestedOnce (.link "real.ts")).disk.Sound ∧ (contestedOnce (.link "real.ts")).disk.Searchable ∧
      (∀ aside ∈ (contestedOnce (.link "real.ts")).ledger.asides,
        (contestedOnce (.link "real.ts")).disk.stands aside = true) ∧
      (contestedTwice (.link "real.ts")).ledger.asides = [⟨"/src/a.conflict.s.ts"⟩, ⟨"/src/a.conflict.s.ts"⟩] := by
    decide +kernel
  obtain ⟨sound, searchable, sound', searchable', stay, asides⟩ := computed
  have differ := always ⟨"s", []⟩ ⟨"/src/a.ts"⟩ _ (by decide)
    (contestedTwice_visited sound searchable sound' searchable' stay)
  rw [asides, List.pairwise_pair] at differ
  exact absurd differ (by decide)

end Carrier

end Stowage

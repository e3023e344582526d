import Stowage.Proofs.Disk.Checking
import Stowage.Proofs.Relocation.Outcomes
import Stowage.Proofs.Relocation.Succeeding

set_option autoImplicit false

namespace Stowage

namespace Instant

theorem order_gt_iff (a b : Instant) :
    a.order b = .gt ↔ b.seconds < a.seconds ∨ a.seconds = b.seconds ∧ b.nanos < a.nanos := by
  unfold order compareOfLessAndEq
  split_ifs <;> simp <;> omega

theorem eq_of_order {a b : Instant} (same : a.order b = .eq) : a = b := by
  unfold order compareOfLessAndEq at same
  split_ifs at same with before after less equal
  cases a
  cases b
  simp_all
  omega

theorem not_gt_trans {a b c : Instant} (first : a.order b ≠ .gt) (second : b.order c ≠ .gt) :
    a.order c ≠ .gt := by
  rw [ne_eq, order_gt_iff] at first second ⊢
  omega

theorem not_gt_of_gt {a b : Instant} (greater : a.order b = .gt) : b.order a ≠ .gt := by
  rw [order_gt_iff] at greater
  rw [ne_eq, order_gt_iff]
  omega

end Instant

namespace Carrier

-- The recorded standing plays no part in the decision.
/-- Record a file, decide by what is at the destination now, and carry this out. -/
def bring (carrier : Carrier) (destination : Path) (site : Site) (source : Path) : Site :=
  match readRecord site.disk source .staged with
  | .error _ => site
  | .ok reading =>
    match Decision.of site.disk reading.record destination with
    | .error _ => site
    | .ok decision => (carrier.execute site decision source destination).2

structure Met (d : Disk) (source destination : Location) (copy : Option Location) (after : Dated) : Prop where
  gone : after source = none
  won : ∃ content modified, after destination = some (content, modified) ∧
    (d.dated destination = some (content, modified) ∨ d.dated source = some (content, modified)) ∧
    ∀ other time, (d.dated destination = some (other, time) ∨ d.dated source = some (other, time)) ->
      time.order modified ≠ .gt
  saved : ∀ content modified, d.dated destination = some (content, modified) ->
    after destination = some (content, modified) ∨ ∃ kept ∈ copy, after kept = some (content, d.now)
  fresh : ∀ kept ∈ copy, d.dated kept = none
  rest : ∀ place, place ≠ source -> place ≠ destination -> place ∉ copy -> after place = d.dated place

section

variable {d : Disk} {source destination : Location} {content own : ByteArray} {modified time : Instant}
  (apart : destination ≠ source) (held : d.dated source = some (own, time))

include apart held

theorem met_absent (absent : d.dated destination = none) :
    Met d source destination none (d.dated.carry source destination) := by
  refine ⟨by simp [Dated.carry], ⟨own, time, ?_, .inr held, ?_⟩, by simp [absent], by simp, ?_⟩
  · rw [Dated.carry, Function.update_of_ne apart, Function.update_self, held]
  · rintro content modified (impossible | same)
    · cases absent.symm.trans impossible
    · cases held.symm.trans same
      simp [Instant.order_self]
  · intro place away away' _
    rw [Dated.carry, Function.update_of_ne away, Function.update_of_ne away']

variable (stood : d.dated destination = some (content, modified))

include stood

theorem met_older (older : time.order modified = .lt) :
    Met d source destination none (Function.update d.dated source none) := by
  refine ⟨by simp, ⟨content, modified, ?_, .inl stood, ?_⟩, ?_, by simp, ?_⟩
  · rw [Function.update_of_ne apart, stood]
  · rintro rival when (same | same)
    · cases stood.symm.trans same
      simp [Instant.order_self]
    · cases held.symm.trans same
      simp [older]
  · intro rival when same
    rw [Function.update_of_ne apart]
    exact .inl same
  · intro place away _ _
    rw [Function.update_of_ne away]

theorem met_newer (newer : time.order modified = .gt) {kept : Location} (fresh : d.dated kept = none) :
    Met d source destination (some kept)
      (Dated.carry (Function.update d.dated kept (some (content, d.now))) source destination) := by
  have absent : ∀ {place value}, d.dated place = some value -> place ≠ kept := by
    rintro place value present rfl
    cases fresh.symm.trans present
  have ahead := absent held
  have away := absent stood
  refine ⟨by simp [Dated.carry], ⟨own, time, ?_, .inr held, ?_⟩, ?_, by simpa using fresh, ?_⟩
  · rw [Dated.carry, Function.update_of_ne apart, Function.update_self, Function.update_of_ne ahead, held]
  · rintro rival when (same | same)
    · cases stood.symm.trans same
      exact Instant.not_gt_of_gt newer
    · cases held.symm.trans same
      simp [Instant.order_self]
  · intro rival when same
    cases stood.symm.trans same
    refine .inr ⟨_, rfl, ?_⟩
    rw [Dated.carry, Function.update_of_ne (Ne.symm ahead), Function.update_of_ne (Ne.symm away),
      Function.update_self]
  · intro place away away' outside
    rw [Dated.carry, Function.update_of_ne away, Function.update_of_ne away',
      Function.update_of_ne (by simpa [eq_comm] using outside)]

end

section

variable (carrier : Carrier) {site : Site} {source destination : Path}
  (free : Unhindered site.disk source destination)

include free

theorem bring_decided (decision : Decision) {content : ByteArray} {modified : Instant}
    (own : site.disk.dated (source.place site.disk.home) = some (content, modified))
    (decide : ∀ record : FileRecord, record.digest = Sha256.hex content -> record.modified = modified ->
      Decision.of site.disk record destination = .ok decision) :
    carrier.bring destination site source = (carrier.execute site decision source destination).2 := by
  obtain ⟨reading, read, digest, time⟩ := free.record .staged own
  unfold bring
  simp only [read, decide reading.record digest time]

theorem Unhindered.other : source.same destination = false := by
  cases same : source.same destination with
  | false => rfl
  | true => exact absurd (Path.place_of_same _ source destination same).symm free.apart

theorem bring_met (stamp : Path.separator ∉ carrier.stamp.toList)
    (fits : (carrier.sibling site.disk destination "backup").Usable)
    (differ : ∀ content modified own time,
      site.disk.dated (destination.place site.disk.home) = some (content, modified) ->
      site.disk.dated (source.place site.disk.home) = some (own, time) ->
      Sha256.hex content ≠ Sha256.hex own ∧ modified ≠ time) :
    ∃ copy : Option Path, (∀ kept ∈ copy, kept = carrier.sibling site.disk destination "backup") ∧
      Met site.disk (source.place site.disk.home) (destination.place site.disk.home)
        (copy.map (Path.place site.disk.home)) (carrier.bring destination site source).disk.dated := by
  obtain ⟨⟨own, time⟩, held⟩ := Option.isSome_iff_exists.1 free.held
  have other := free.other
  cases stood : site.disk.dated (destination.place site.disk.home) with
  | none =>
    have came := bring_decided carrier free .move held fun record _ _ => free.decision_absent record stood
    have ran : carrier.execute site .move source destination = carrier.executeMove site source destination := by
      simp [execute, other]
    rw [came, ran, free.move carrier site.ledger]
    exact ⟨none, by simp, met_absent free.apart held stood⟩
  | some old =>
    obtain ⟨content, modified⟩ := old
    obtain ⟨digests, times⟩ := differ content modified own time stood held
    have came := bring_decided carrier free (.ofTimes time modified) held
      fun record digest when => by
        rw [← when]
        exact free.decision_present record stood (by rwa [digest])
    -- The contents differ, so that the times decide; and these are not the same either.
    rcases Decision.ofTimes_cases time modified with ⟨decided, newer⟩ | ⟨decided, older⟩ | ⟨-, same⟩
    · obtain ⟨fresh, dated⟩ := free.update carrier stamp fits site.ledger content modified stood
      have ran : carrier.execute site .updateNewer source destination =
          carrier.executeUpdate site source destination := by simp [execute, other]
      rw [came, decided, ran, dated]
      exact ⟨some _, by simp, met_newer free.apart held stood newer (by simp [Disk.dated, fresh])⟩
    · have ran : carrier.execute site .skipOlder source destination =
          carrier.executeDrop site .skipOlder source destination := by simp [execute, other]
      rw [came, decided, ran, free.drop carrier site.ledger .skipOlder]
      exact ⟨none, by simp, met_older free.apart held stood older⟩
    · exact absurd (Instant.eq_of_order same).symm times

theorem bring_later : site.disk.Later (carrier.bring destination site source).disk ∧
    ∀ place, (carrier.bring destination site source).disk.FolderAt place ->
      site.disk.FolderAt place ∨ place <+: destination.place site.disk.home := by
  unfold bring
  split
  · exact ⟨.refl free.regular, fun _ found => .inl found⟩
  · split
    · exact ⟨.refl free.regular, fun _ found => .inl found⟩
    next decision _ =>
      have went := execute_went carrier site free.regular source destination decision (fun _ => free.apart)
        free.hasFile.contents
      obtain ⟨entries, -, did⟩ := went.did free.regular
      refine ⟨did.later, fun place found => ?_⟩
      have grows := (went.grows free.regular (.inl free.normal'.plain)).folder place found
      rwa [free.normal'.plain.names site.disk.home] at grows

end

theorem sibling_number (carrier : Carrier) (d : Disk) (regular : d.Regular) (path : Path) (label : String)
    (used : List Nat)
    (listed : ∀ number, d.node? ((carrier.siblingAt path label number).place d.home) ≠ none -> number ∈ used) :
    ∃ number ≤ used.length, carrier.sibling d path label = carrier.siblingAt path label number := by
  obtain ⟨number, -, own, -, taken⟩ := carrier.sibling_first d regular.toSound path label
  refine ⟨number, ?_, own⟩
  -- All numbers below it are taken, and no number is twice among these.
  have within : List.range number ⊆ used := by
    intro step inside
    obtain ⟨place, node, found⟩ := (d.isThere_iff _).1 (taken step (List.mem_range.1 inside))
    exact listed step (by simp [(Disk.find_place d regular _ place node found).2])
  have short := (List.nodup_range.subperm within).length_le
  rwa [List.length_range] at short

theorem length_le_utf8ByteSize (text : String) : text.toList.length ≤ text.utf8ByteSize := by
  obtain ⟨chars, rfl⟩ : ∃ chars, text = String.ofList chars := ⟨text.toList, by simp⟩
  rw [String.toList_ofList, ← String.size_toByteArray, String.toByteArray_ofList]
  induction chars with
  | nil => simp
  | cons c rest ih =>
    have some := c.utf8Size_pos
    rw [List.utf8Encode_cons, ByteArray.size_append, List.length_cons, List.utf8Encode_singleton,
      List.size_toByteArray, String.length_utf8EncodeChar]
    omega

theorem copy_short (d : Disk) (origin target : Path) (copied : Disk) (done : d.copy origin target = .ok copied)
    (name : String) (entered : .enter name ∈ target.steps) : name.utf8ByteSize ≤ Disk.longestName := by
  obtain ⟨_, _, _, -, stored⟩ := Disk.copy_eq_ok done
  have reached : ∃ spot, d.spot .target target = .ok spot := by
    rcases Disk.store_eq_ok stored with ⟨_, _, _, _, reached, -⟩ | ⟨_, reached, -⟩ <;> exact ⟨_, reached⟩
  obtain ⟨spot, reached⟩ := reached
  exact ((Disk.spot_eq_ok_iff d .target target spot).1 reached).2.short name entered

theorem sibling_refused (carrier : Carrier) (stamp : Path.separator ∉ carrier.stamp.toList) (d : Disk)
    {path : Path} (normal : path.Normal) {name : String} (named : path.fileName? = some name)
    (long : Disk.longestName ≤ name.toList.length + 6) (origin : Path) (copied : Disk) :
    d.copy origin (carrier.sibling d path "backup") ≠ .ok copied := by
  intro done
  obtain ⟨number, beside⟩ : ∃ number, carrier.sibling d path "backup" = carrier.siblingAt path "backup" number :=
    ⟨_, rfl⟩
  obtain ⟨-, last⟩ := carrier.siblingAt_normal stamp "backup" (by simp) normal number
  rw [beside] at done
  have fits := copy_short _ _ _ copied done _ (List.mem_of_getLast? last)
  have longer := carrier.siblingName_length path "backup" number name named
  have bytes := length_le_utf8ByteSize (carrier.siblingName path "backup" number)
  have label : "backup".toList.length = 6 := rfl
  omega

theorem bring_refused {carrier : Carrier} {site : Site} {source destination : Path}
    (free : Unhindered site.disk source destination)
    (refused : ∀ copied, site.disk.copy destination (carrier.sibling site.disk destination "backup") ≠ .ok copied)
    {content own : ByteArray} {modified time : Instant}
    (stood : site.disk.dated (destination.place site.disk.home) = some (content, modified))
    (held : site.disk.dated (source.place site.disk.home) = some (own, time))
    (digests : Sha256.hex content ≠ Sha256.hex own) (newer : time.order modified = .gt) :
    (carrier.bring destination site source).disk = site.disk := by
  have came := bring_decided carrier free .updateNewer held fun record digest when => by
    rw [free.decision_present record stood (by rwa [digest]), when, Decision.ofTimes, newer]
  have ran : carrier.execute site .updateNewer source destination =
      carrier.executeUpdate site source destination := by simp [execute, free.other]
  rw [came, ran]
  unfold executeUpdate
  simp only
  split
  · rfl
  next copied done => exact absurd done (refused copied)

end Carrier

end Stowage

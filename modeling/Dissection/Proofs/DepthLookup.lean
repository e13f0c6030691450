import Mathlib.Data.List.Infix
import Dissection.Descriptor.Layout
import Dissection.Proofs.TableInvariant

namespace Dissection

section Lookup

theorem exists_of_getElem?_filter {α : Type} {p : α → Bool} {items : List α} {depth : Nat}
    {item : α} (h : (items.filter p)[depth]? = some item) :
    ∃ before behind, items = before ++ item :: behind ∧ before.countP p = depth ∧
      p item = true := by
  induction items generalizing depth with
  | nil => cases h
  | cons first rest ih =>
      by_cases hfirst : p first = true
      · rw [List.filter_cons_of_pos hfirst] at h
        cases depth with
        | zero =>
            cases h
            exact ⟨[], rest, rfl, rfl, hfirst⟩
        | succ depth =>
            obtain ⟨before, behind, rfl, rfl, hitem⟩ := ih h
            exact ⟨first :: before, behind, rfl, List.countP_cons_of_pos hfirst, hitem⟩
      · rw [List.filter_cons_of_neg hfirst] at h
        obtain ⟨before, behind, rfl, rfl, hitem⟩ := ih h
        exact ⟨first :: before, behind, rfl, List.countP_cons_of_neg hfirst, hitem⟩

theorem getElem?_filter_countP {α : Type} {p : α → Bool} {items : List α} {index : Nat} {item : α}
    (h : items[index]? = some item) (hitem : p item = true) :
    (items.filter p)[(items.take index).countP p]? = some item := by
  obtain ⟨hindex, rfl⟩ := List.getElem?_eq_some_iff.mp h
  have hsplit : items = items.take index ++ items[index] :: items.drop (index + 1) := by
    rw [List.getElem_cons_drop, List.take_append_drop]
  have hfilter : items.filter p =
      (items.take index).filter p ++ items[index] :: (items.drop (index + 1)).filter p := by
    conv_lhs => rw [hsplit]
    rw [List.filter_append, List.filter_cons_of_pos hitem]
  rw [hfilter, List.countP_eq_length_filter, List.getElem?_append_right (Nat.le_refl _),
    Nat.sub_self, List.getElem?_cons_zero]

variable {records others : List Record} {id : ProtocolId} {depth index : Nat} {record : Record}

/-- The depth of a record is the count of the records before it that share its identifier. -/
theorem lookupRecord_eq_some_iff :
    lookupRecord records id depth = some (index, record) ↔
      records[index]? = some record ∧ record.id = id ∧
        ((records.take index).countP fun record => record.id == id) = depth := by
  have htake : ((records.take index).countP fun record => record.id == id) =
      (records.zipIdx.take index).countP fun entry => entry.1.id == id := by
    rw [← List.zipIdx_map_fst 0 records, ← List.map_take, List.countP_map, List.zipIdx_map_fst]
    rfl
  constructor
  · intro h
    obtain ⟨entry, hentry, heq⟩ := Option.map_eq_some_iff.mp h
    obtain ⟨rfl, rfl⟩ := Prod.mk.inj heq
    obtain ⟨before, behind, hsplit, hcount, hid⟩ := exists_of_getElem?_filter hentry
    have hplace : records.zipIdx[before.length]? = some entry := by simp [hsplit]
    have hindex : records[before.length]? = some entry.1 ∧ entry.2 = before.length := by
      rw [List.getElem?_zipIdx, Option.map_eq_some_iff] at hplace
      obtain ⟨record, hrecord, rfl⟩ := hplace
      exact ⟨hrecord, Nat.zero_add _⟩
    rw [htake, hindex.2, hsplit, List.take_left]
    exact ⟨hindex.1, by simpa using hid, hcount⟩
  · rintro ⟨hrecord, hid, rfl⟩
    have hplace : records.zipIdx[index]? = some (record, index) := by simp [hrecord]
    rw [lookupRecord, htake, getElem?_filter_countP hplace (by simpa using hid)]
    rfl

theorem lookupRecord_append (h : lookupRecord records id depth = some (index, record)) :
    lookupRecord (records ++ others) id depth = some (index, record) := by
  obtain ⟨hrecord, hid, hcount⟩ := lookupRecord_eq_some_iff.mp h
  obtain ⟨hindex, _⟩ := List.getElem?_eq_some_iff.mp hrecord
  rw [lookupRecord_eq_some_iff, List.getElem?_append_left hindex,
    List.take_append_of_le_length (Nat.le_of_lt hindex)]
  exact ⟨hrecord, hid, hcount⟩

theorem lookupRecord_of_ids (hids : others.map Record.id = records.map Record.id)
    (h : lookupRecord records id depth = some (index, record)) :
    ∃ other, others[index]? = some other ∧ lookupRecord others id depth = some (index, other) := by
  obtain ⟨hrecord, hid, hcount⟩ := lookupRecord_eq_some_iff.mp h
  have hcounts (records : List Record) :
      ((records.take index).countP fun record => record.id == id) =
        ((records.map Record.id).take index).countP fun other => other == id := by
    rw [← List.map_take, List.countP_map]
    rfl
  have hother : (others.map Record.id)[index]? = some record.id := by simp [hids, hrecord]
  rw [List.getElem?_map, Option.map_eq_some_iff] at hother
  obtain ⟨other, hother, hsame⟩ := hother
  refine ⟨other, hother, ?_⟩
  rw [lookupRecord_eq_some_iff, hcounts, hids, ← hcounts]
  exact ⟨hother, hsame.trans hid, hcount⟩

end Lookup

/-- Look-ups by identifier and depth enumerate the records. -/
structure Enumerates (records : List Record) (get? : Nat → Option Record)
    (lookup : ProtocolId → Nat → Option (Nat × Record)) : Prop where
  isSome_iff : ∀ id depth, (lookup id depth).isSome ↔
    depth < records.countP fun record => record.id == id
  found : ∀ id depth index record, lookup id depth = some (index, record) →
    get? index = some record ∧ record.id = id
  /-- What is deeper stands behind. -/
  increasing : ∀ id shallow deep before behind, shallow < deep →
    (lookup id shallow).map Prod.fst = some before → (lookup id deep).map Prod.fst = some behind →
      before < behind
  /-- Every record is found at one depth, the count of those before it with its identifier. -/
  depth_iff : ∀ index record, get? index = some record → ∀ depth,
    lookup record.id depth = some (index, record) ↔
      depth = (records.take index).countP fun other => other.id == record.id

theorem enumerates (records : List Record) :
    Enumerates records (fun index => records[index]?) (lookupRecord records) := by
  constructor
  · exact lookupRecord_isSome_iff records
  · intro id depth index record h
    exact lookupRecord_eq_some h
  · intro id shallow deep before behind hdepths hshallow hdeep
    obtain ⟨⟨_, first⟩, hfirst, rfl⟩ := Option.map_eq_some_iff.mp hshallow
    obtain ⟨⟨_, second⟩, hsecond, rfl⟩ := Option.map_eq_some_iff.mp hdeep
    obtain ⟨_, _, rfl⟩ := lookupRecord_eq_some_iff.mp hfirst
    obtain ⟨_, _, rfl⟩ := lookupRecord_eq_some_iff.mp hsecond
    -- More records are counted before the deeper one, so more stand before it.
    by_contra hle
    have hfront := List.take_prefix_take_left (l := records) (Nat.le_of_not_lt hle)
    exact Nat.not_lt.mpr hfront.sublist.countP_le hdepths
  · intro index record h depth
    rw [lookupRecord_eq_some_iff]
    constructor
    · rintro ⟨_, _, rfl⟩
      rfl
    · rintro rfl
      exact ⟨h, rfl, rfl⟩

namespace RecordTable

/-- What is found in a table, while records are added to it and get other lengths. -/
structure KeepsLookups (table : RecordTable) : Prop where
  added : ∀ places id depth found, table.lookup id depth = some found →
    (table.recordPlaces places).table.lookup id depth = some found
  /-- The same records are found; only the one that got another length differs, in its length. -/
  resized : ∀ index length id depth found record, table.lookup id depth = some (found, record) →
    ∃ other, (table.recordResize index length).table.lookup id depth =
        some (found, ⟨record.id, record.offset, other⟩) ∧
      (found ≠ index → other = record.length)
  missing : ∀ index length id depth, table.lookup id depth = none →
    (table.recordResize index length).table.lookup id depth = none

theorem exists_recordPlaces (table : RecordTable) (places : List Placement) :
    ∃ behind, (table.recordPlaces places).table.records = table.records ++ behind := by
  induction places generalizing table with
  | nil => exact ⟨[], (List.append_nil _).symm⟩
  | cons place rest ih =>
      unfold recordPlaces
      split
      · exact ih table
      · rename_i added hadd
        obtain ⟨behind, hbehind⟩ := ih added
        obtain ⟨_, _, rfl⟩ := add?_eq_some_iff.mp hadd
        exact ⟨_ :: behind, by simpa using hbehind⟩

theorem getElem?_recordResize (table : RecordTable) (index length position : Nat) :
    (table.recordResize index length).table.records[position]? = table.records[position]? ∨
      position = index ∧ ∃ record, table.records[position]? = some record ∧
        (table.recordResize index length).table.records[position]? =
          some ⟨record.id, record.offset, length.toUInt16⟩ := by
  unfold recordResize
  split
  · exact .inl rfl
  · rename_i resized hresize
    obtain ⟨record, hrecord, _, rfl⟩ := resize?_eq_some_iff.mp hresize
    obtain ⟨hindex, _⟩ := List.getElem?_eq_some_iff.mp hrecord
    by_cases hposition : position = index
    · subst hposition
      exact .inr ⟨rfl, record, hrecord, by simp [hindex]⟩
    · exact .inl (List.getElem?_set_ne (Ne.symm hposition))

theorem map_id_recordResize (table : RecordTable) (index length : Nat) :
    (table.recordResize index length).table.records.map Record.id =
      table.records.map Record.id := by
  apply List.ext_getElem?
  intro position
  rw [List.getElem?_map, List.getElem?_map]
  rcases table.getElem?_recordResize index length position with
    hsame | ⟨_, record, hrecord, hresized⟩
  · rw [hsame]
  · rw [hrecord, hresized]
    rfl

theorem keepsLookups (table : RecordTable) : table.KeepsLookups := by
  constructor
  · rintro places id depth ⟨index, record⟩ h
    obtain ⟨behind, hbehind⟩ := table.exists_recordPlaces places
    rw [lookup, hbehind]
    exact lookupRecord_append h
  · intro index length id depth found record h
    obtain ⟨other, hother, hfound⟩ := lookupRecord_of_ids (table.map_id_recordResize index length) h
    obtain ⟨hrecord, _⟩ := lookupRecord_eq_some h
    rcases table.getElem?_recordResize index length found with hsame | ⟨hindex, _, hsole, hresized⟩
    · cases hother.symm.trans (hsame.trans hrecord)
      exact ⟨record.length, hfound, fun _ => rfl⟩
    · cases hsole.symm.trans hrecord
      cases hother.symm.trans hresized
      exact ⟨length.toUInt16, hfound, fun hne => absurd hindex hne⟩
  · intro index length id depth h
    by_contra hsome
    obtain ⟨⟨found, record⟩, hfound⟩ := Option.ne_none_iff_exists'.mp hsome
    obtain ⟨_, _, hlookup⟩ :=
      lookupRecord_of_ids (table.map_id_recordResize index length).symm hfound
    cases h.symm.trans hlookup

end RecordTable

/-- Look-ups by depth enumerate every table and every descriptor, and what was found in a table
is found as long as the table grows. -/
theorem lookup_enumerates :
    (∀ table : RecordTable, Enumerates table.records table.get? table.lookup ∧
      table.KeepsLookups) ∧
    ∀ view : Descriptor, Enumerates view.records view.get? view.lookup := by
  refine ⟨?_, ?_⟩
  · intro table
    exact ⟨enumerates table.records, table.keepsLookups⟩
  · intro view
    exact enumerates view.records

end Dissection

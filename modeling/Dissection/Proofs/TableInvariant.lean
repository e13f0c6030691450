import Mathlib.Data.List.Induction
import Mathlib.Logic.Relation
import Dissection.Dissector.Dissect

namespace Dissection

/-- The mask with the bit `1 << ordinal` of every core record whose ordinal is
below 64, and no other bit. -/
def seenMask (records : List Record) : UInt64 :=
  (records.filter fun record => record.id.isCore && record.id.ordinal < 64).foldl
    (fun mask record => mask ||| (1 : UInt64) <<< record.id.ordinal.toUInt64) 0

theorem seenMask_append_singleton (records : List Record) (record : Record) :
    seenMask (records ++ [record]) = seenMask records ||| record.id.maskBit := by
  unfold seenMask ProtocolId.maskBit
  rw [List.filter_append, List.foldl_append]
  by_cases h : (record.id.isCore && record.id.ordinal < 64) = true
  · simp [h]
  · simp [h]

theorem seenMask_append (records behind : List Record) :
    seenMask (records ++ behind) = seenMask records ||| seenMask behind := by
  induction behind using List.reverseRecOn with
  | nil => simp [seenMask]
  | append_singleton behind record ih =>
      rw [← List.append_assoc, seenMask_append_singleton, seenMask_append_singleton, ih,
        UInt64.or_assoc]

theorem seenMask_cons (record : Record) (records : List Record) :
    seenMask (record :: records) = record.id.maskBit ||| seenMask records := by
  have hrecord : seenMask [record] = record.id.maskBit :=
    (seenMask_append_singleton [] record).trans UInt64.zero_or
  rw [← List.singleton_append, seenMask_append, hrecord]

theorem seenMask_congr {records others : List Record}
    (h : records.map Record.id = others.map Record.id) :
    seenMask records = seenMask others := by
  have hfold : ∀ records : List Record, seenMask records =
      ((records.map Record.id).filter fun id => id.isCore && id.ordinal < 64).foldl
        (fun mask id => mask ||| (1 : UInt64) <<< id.ordinal.toUInt64) 0 := by
    intro records
    rw [List.filter_map, List.foldl_map]
    rfl
  rw [hfold, hfold, h]

theorem start_ofNats {id : ProtocolId} {offset : Nat} (length : Nat)
    (h : offset ≤ 65535) : (Record.ofNats id offset length).start = offset := by
  simp only [Record.start, Record.ofNats, Nat.toUInt16_eq, UInt16.toNat_ofNat']
  omega

theorem size_ofNats {id : ProtocolId} {length : Nat} (offset : Nat)
    (h : length ≤ 65535) : (Record.ofNats id offset length).size = length := by
  simp only [Record.size, Record.ofNats, Nat.toUInt16_eq, UInt16.toNat_ofNat']
  omega

namespace RecordTable

theorem add?_eq_some_iff {table next : RecordTable} {place : Placement} :
    table.add? place = some next ↔
      table.size ≠ capacity ∧ table.fits place.offset place.length = true ∧
        next = ⟨table.records ++ [.ofNats place.id place.offset place.length],
          table.mask ||| place.id.maskBit, table.limit⟩ := by
  simp only [add?, isFull, Bool.or_eq_true, decide_eq_true_eq, Bool.not_eq_true']
  constructor
  · intro h
    split at h
    · cases h
    · rename_i hfits
      rw [not_or, Bool.not_eq_false] at hfits
      cases h
      exact ⟨hfits.1, hfits.2, rfl⟩
  · rintro ⟨hroom, hfits, rfl⟩
    rw [if_neg]
    simp [hroom, hfits]

theorem resize?_eq_some_iff {table next : RecordTable} {index length : Nat} :
    table.resize? index length = some next ↔
      ∃ record, table.records[index]? = some record ∧
        table.fits record.start length = true ∧
        next = ⟨table.records.set index ⟨record.id, record.offset, length.toUInt16⟩,
          table.mask, table.limit⟩ := by
  simp only [resize?, Option.bind_eq_bind, Option.bind_eq_some_iff]
  refine exists_congr fun record => and_congr_right fun _ => ?_
  split
  · rename_i hfits
    simp [hfits, eq_comm]
  · rename_i hfits
    simp [hfits]

/-- A change that recording makes: one record more, or another length for one. -/
inductive Step (table next : RecordTable) : Prop where
  | add {place : Placement} (h : table.add? place = some next)
  | resize {index length : Nat} (h : table.resize? index length = some next)

/-- What a table turns into by such changes. -/
abbrev Reaches : RecordTable → RecordTable → Prop :=
  Relation.ReflTransGen Step

/-- A table that started from a mask holds no more records than it has room for,
none of them behind the captured bytes, and has set in its mask what it recorded. -/
structure Sound (start : UInt64) (table : RecordTable) : Prop where
  size_le : table.size ≤ capacity
  stop_le : ∀ record ∈ table.records, record.stop ≤ table.limit
  mask_eq : table.mask = start ||| seenMask table.records

theorem sound_empty (limit : Nat) (mask : UInt64) : (empty limit mask).Sound mask := by
  refine ⟨Nat.zero_le _, ?_, ?_⟩
  · intro record hrecord
    cases hrecord
  · exact UInt64.or_zero.symm

theorem Step.limit_eq {table next : RecordTable} (h : Step table next) :
    next.limit = table.limit := by
  cases h with
  | add h =>
      obtain ⟨_, _, rfl⟩ := add?_eq_some_iff.mp h
      rfl
  | resize h =>
      obtain ⟨_, _, _, rfl⟩ := resize?_eq_some_iff.mp h
      rfl

theorem Step.sound {start : UInt64} {table next : RecordTable} (h : Step table next)
    (hsound : table.Sound start) : next.Sound start := by
  have hsize := hsound.size_le
  cases h with
  | @add place h =>
      obtain ⟨hroom, hfits, rfl⟩ := add?_eq_some_iff.mp h
      obtain ⟨hoffset, hlength, hstop⟩ := (fits_iff _ _ _).mp hfits
      refine ⟨?_, ?_, ?_⟩
      · simp only [size, List.length_append, List.length_singleton] at hsize hroom ⊢
        omega
      · intro record hrecord
        rcases List.mem_append.mp hrecord with hold | hnew
        · exact hsound.stop_le record hold
        · rw [List.mem_singleton.mp hnew, Record.stop, start_ofNats _ hoffset,
            size_ofNats _ hlength]
          exact hstop
      · change table.mask ||| _ = _
        rw [seenMask_append_singleton, hsound.mask_eq, UInt64.or_assoc]
        rfl
  | @resize index length h =>
      obtain ⟨resized, hresized, hfits, rfl⟩ := resize?_eq_some_iff.mp h
      obtain ⟨_, hlength, hstop⟩ := (fits_iff _ _ _).mp hfits
      refine ⟨?_, ?_, ?_⟩
      · simpa [size] using hsize
      · intro record hrecord
        rcases List.mem_or_eq_of_mem_set hrecord with hold | rfl
        · exact hsound.stop_le record hold
        · simp only [Record.stop, Record.start, Record.size, Nat.toUInt16_eq,
            UInt16.toNat_ofNat'] at hstop ⊢
          omega
      · rw [hsound.mask_eq]
        congr 1
        apply seenMask_congr
        obtain ⟨hindex, hget⟩ := List.getElem?_eq_some_iff.mp hresized
        rw [List.map_set]
        symm
        apply List.ext_getElem
        · simp
        · intro position _ _
          simp only [List.getElem_map, List.getElem_set]
          split
          · rename_i heq
            simp [← heq, hget]
          · rfl

theorem Reaches.limit_eq {table next : RecordTable} (h : Reaches table next) :
    next.limit = table.limit := by
  induction h with
  | refl => rfl
  | tail _ hstep ih => rw [hstep.limit_eq, ih]

theorem Reaches.sound {start : UInt64} {table next : RecordTable}
    (h : Reaches table next) (hsound : table.Sound start) : next.Sound start := by
  induction h with
  | refl => exact hsound
  | tail _ hstep ih => exact hstep.sound ih

theorem recordEntries_reaches (table : RecordTable) (offset : Nat) (fault : Option Note)
    (entries : List Entry) :
    Reaches table (table.recordEntries offset fault entries).table := by
  induction entries generalizing table offset with
  | nil => exact .refl
  | cons entry rest ih =>
      unfold recordEntries
      split
      · exact ih _ _
      · dsimp only
        split
        · exact .refl
        · rename_i hadd
          exact .head (.add hadd) (ih _ _)

theorem recordTrailers_reaches (table : RecordTable) (offset : Nat)
    (trailers : List Trailer) :
    Reaches table (table.recordTrailers offset trailers).table := by
  induction trailers generalizing table offset with
  | nil => exact .refl
  | cons trailer rest ih =>
      unfold recordTrailers
      dsimp only
      split
      · exact .refl
      · rename_i hadd
        exact .head (.add hadd) ((recordEntries_reaches _ _ _ _).trans (ih _ _))

theorem recordResize_reaches (table : RecordTable) (index length : Nat) :
    Reaches table (table.recordResize index length).table := by
  unfold recordResize
  split
  · exact .refl
  · rename_i hresize
    exact .single (.resize hresize)

/-- Whatever places an extension asks for, it changes a table by steps alone. -/
theorem recordPlaces_reaches (table : RecordTable) (places : List Placement) :
    Reaches table (table.recordPlaces places).table := by
  induction places generalizing table with
  | nil => exact .refl
  | cons place rest ih =>
      unfold recordPlaces
      split
      · exact ih _
      · rename_i hadd
        exact .head (.add hadd) (ih _)

end RecordTable

theorem recordLayer_reaches (table : RecordTable) (summary : Summary) (offset : Nat)
    (layer : Layer) :
    table.Reaches (recordLayer table summary offset layer).table := by
  unfold recordLayer
  dsimp only
  split
  · exact .refl
  · rename_i added hadd
    have hmembers :=
      RecordTable.recordEntries_reaches added (offset + layer.members.start)
        layer.members.run.verdict layer.members.run.items
    split
    · exact .head (.add hadd) hmembers
    · exact .head (.add hadd) (hmembers.trans
        ((RecordTable.recordTrailers_reaches _ _ _).trans
          (RecordTable.recordResize_reaches _ _ _)))

theorem recordLayers_reaches (table : RecordTable) (summary : Summary) (offset : Nat)
    (layers : List Layer) :
    table.Reaches (recordLayers table summary offset layers).table := by
  induction layers generalizing table summary offset with
  | nil => exact .refl
  | cons layer rest ih =>
      unfold recordLayers
      dsimp only
      split
      · exact recordLayer_reaches _ _ _ _
      · exact (recordLayer_reaches _ _ _ _).trans (ih _ _ _)

theorem conclude_reaches (extension : Option Extension) (captured : Bytes)
    (table : RecordTable) (offset : Nat) (ending : Ending) :
    table.Reaches (conclude extension captured table offset ending).table := by
  unfold conclude
  split
  · exact .refl
  · exact .refl
  · dsimp only
    split
    · exact .refl
    · exact table.recordPlaces_reaches _

end Dissection

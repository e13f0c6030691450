import Dissection.Proofs.RoundTrip

namespace Dissection

namespace ProtocolId

/-- An identifier that a pack and an ordinal have room for. -/
def IsNarrow (id : ProtocolId) : Prop :=
  id.raw.toNat < 65536

theorem packOrdinal_toNat (id : ProtocolId) : id.packOrdinal.toNat = id.raw.toNat / 256 % 256 := by
  simp [packOrdinal]

theorem isCore_iff (id : ProtocolId) : id.isCore = true ↔ id.raw.toNat < 256 := by
  simp only [isCore, decide_eq_true_eq, ← UInt32.toNat_inj, UInt32.toNat_div, UInt32.reduceToNat]
  omega

theorem pack?_eq_core_iff (id : ProtocolId) :
    id.pack? = some .core ↔ id.raw.toNat / 256 % 256 = 0 := by
  rw [pack?, Pack.ofOrdinal?_eq_some_iff, ← packOrdinal_toNat, ← UInt8.toNat_inj]
  exact eq_comm

theorem ofPack_ordinal {id : ProtocolId} {pack : Pack} (h : id.pack? = some pack)
    (hnarrow : id.IsNarrow) : ofPack pack id.ordinal = id := by
  rw [pack?, Pack.ofOrdinal?_eq_some_iff] at h
  obtain ⟨raw⟩ := id
  have hpack := packOrdinal_toNat ⟨raw⟩
  rw [IsNarrow] at hnarrow
  rw [ofPack, h, mk.injEq]
  apply UInt32.toNat.inj
  simp only [UInt32.toNat_add, UInt32.toNat_mul, UInt8.toNat_toUInt32, hpack, ordinal,
    UInt32.toNat_toUInt8, UInt32.reduceToNat]
  simp only at hnarrow
  omega

/-- What an identifier says of itself: a narrow one is spelled by its pack and its ordinal. -/
structure Decodes (id : ProtocolId) : Prop where
  ofPack_eq : id.IsNarrow → ∀ pack, id.pack? = some pack → ofPack pack id.ordinal = id
  isCore_iff : id.IsNarrow → (id.isCore = true ↔ id.pack? = some .core)
  pack_of_isCore : id.isCore = true → id.pack? = some .core

theorem decodes (id : ProtocolId) : id.Decodes := by
  constructor
  · intro hnarrow pack hpack
    exact ofPack_ordinal hpack hnarrow
  · intro hnarrow
    rw [IsNarrow] at hnarrow
    rw [isCore_iff, pack?_eq_core_iff]
    omega
  · rw [isCore_iff, pack?_eq_core_iff]
    omega

end ProtocolId

namespace Descriptor

/-- What the compact form of a record that is looked up keeps. -/
structure Compacts (view : Descriptor) (id : ProtocolId) : Prop where
  found : ∀ depth slot record, view.lookup id depth = some (slot, record) →
    ∃ compact, view.lookupCompact id depth = some compact ∧
      compact.id.toNat = id.raw.toNat % 65536 ∧ (id.IsNarrow → compact.id.toNat = id.raw.toNat) ∧
        compact.hint.toNat = slot ∧ compact.offset = record.offset ∧ compact.length = record.length
  /-- Different narrow identifiers have different compact forms. -/
  apart : ∀ other depth compact otherDepth otherCompact, id.IsNarrow → other.IsNarrow → id ≠ other →
    view.lookupCompact id depth = some compact →
      view.lookupCompact other otherDepth = some otherCompact → compact.id ≠ otherCompact.id

theorem id_lookupCompact {view : Descriptor} {id : ProtocolId} {depth : Nat}
    {compact : CompactRecord} (h : view.lookupCompact id depth = some compact) :
    compact.id = id.raw.toUInt16 := by
  obtain ⟨⟨slot, record⟩, hfound, rfl⟩ := Option.map_eq_some_iff.mp h
  obtain ⟨_, rfl⟩ := lookupRecord_eq_some hfound
  rfl

theorem compacts {view : Descriptor} (h : view.records.length ≤ 32) (id : ProtocolId) :
    view.Compacts id := by
  constructor
  · intro depth slot record hfound
    obtain ⟨hrecord, _⟩ := lookupRecord_eq_some hfound
    obtain ⟨hslot, _⟩ := List.getElem?_eq_some_iff.mp hrecord
    have hcompact : view.lookupCompact id depth = some (record.compact slot.toUInt16) := by
      rw [lookupCompact, hfound]
      rfl
    have hid := id_lookupCompact hcompact
    refine ⟨_, hcompact, by simp [hid], ?_, ?_, rfl, rfl⟩
    · intro hnarrow
      rw [hid, UInt32.toNat_toUInt16]
      exact Nat.mod_eq_of_lt hnarrow
    · change slot.toUInt16.toNat = slot
      rw [Nat.toUInt16_eq, UInt16.toNat_ofNat']
      omega
  · intro other depth compact otherDepth otherCompact hnarrow hother hne hcompact hotherCompact heq
    rw [id_lookupCompact hcompact, id_lookupCompact hotherCompact, ← UInt16.toNat_inj,
      UInt32.toNat_toUInt16, UInt32.toNat_toUInt16, Nat.mod_eq_of_lt hnarrow,
      Nat.mod_eq_of_lt hother] at heq
    exact hne (congrArg ProtocolId.mk (UInt32.toNat.inj heq))

theorem length_records_of_readFrom {order : ByteOrder} {buffer : Bytes} {view : Descriptor}
    (h : readFrom order buffer = .ok view) : view.records.length ≤ 32 := by
  unfold readFrom at h
  split at h
  · cases h
    rw [decode, List.length_map, List.length_range]
    exact Nat.min_le_right _ _
  · cases h

/-- An identifier decodes to what it was made of, and is kept by the compact form of its records in
whatever was read, as far as it has room there. -/
theorem narrow_survives (id : ProtocolId) {order : ByteOrder} {buffer : Bytes} {view : Descriptor}
    (h : readFrom order buffer = .ok view) : id.Decodes ∧ view.Compacts id :=
  ⟨id.decodes, compacts (length_records_of_readFrom h) id⟩

/-- An identifier of more than sixteen bits. -/
def wideId : ProtocolId :=
  ⟨0x10001⟩

/-- A descriptor of two records, one with a wide identifier and one with its low sixteen bits. -/
def wideDescriptor : Descriptor where
  timestamp := 0
  capturedLength := 60
  wireLength := 60
  metadata := .blank
  link := .ether
  network := .none
  transport := .none
  fragment := .none
  mask := 0
  records := [⟨wideId, 14, 20⟩, ⟨⟨1⟩, 34, 8⟩]

theorem readFrom_wideDescriptor (order : ByteOrder) :
    readFrom order (encode order wideDescriptor) = .ok wideDescriptor := by
  have hfits : wideDescriptor.Fits := ⟨by decide, by decide⟩
  simpa using readFrom_encode order hfits []

theorem survives_wideDescriptor :
    readFrom .big (encode .big wideDescriptor) = .ok wideDescriptor ∧
      wideDescriptor.lookup ⟨1⟩ 0 = some (1, ⟨⟨1⟩, 34, 8⟩) ∧
        ProtocolId.Decodes ⟨1⟩ ∧ wideDescriptor.Compacts ⟨1⟩ := by
  have hread := readFrom_wideDescriptor .big
  exact ⟨hread, by decide, narrow_survives ⟨1⟩ hread⟩

/-- A wide identifier decodes to the core pack without being core, is not spelled by what it decodes
to, and shares its compact form with another identifier. -/
theorem wide_collides :
    wideId.pack? = some .core ∧ wideId.isCore = false ∧
      ProtocolId.ofPack .core wideId.ordinal ≠ wideId ∧
        readFrom .big (encode .big wideDescriptor) = .ok wideDescriptor ∧
          wideDescriptor.lookupCompact wideId 0 = some ⟨1, 0, 14, 20⟩ ∧
            wideDescriptor.lookupCompact ⟨1⟩ 0 = some ⟨1, 1, 34, 8⟩ := by
  exact ⟨by decide, by decide, by decide, readFrom_wideDescriptor .big, by decide, by decide⟩

end Descriptor

end Dissection

import Dissection.Proofs.TableInvariant

namespace Dissection

namespace Record

theorem testBit_encode_compact {record : Record} (h : record.id.raw.toNat < 65536) (hint : UInt16)
    (bit : Nat) :
    (record.compact hint).encode.toNat.testBit bit =
      if 16 ≤ bit ∧ bit < 32 then hint.toNat.testBit (bit - 16)
      else record.encode.toNat.testBit bit := by
  obtain ⟨place, hplace⟩ : ∃ place, place = record.start + record.size * 2 ^ 16 := ⟨_, rfl⟩
  -- Of a narrow identifier, the sixteen bits where the hint stands are zero.
  have hrecord : record.encode.toNat = 2 ^ 16 * (2 ^ 16 * place + 0) + record.id.raw.toNat := by
    rw [encode_toNat, hplace]
    omega
  have hcompact : (record.compact hint).encode.toNat =
      2 ^ 16 * (2 ^ 16 * place + hint.toNat) + record.id.raw.toNat := by
    have hid : (record.compact hint).id.toNat = record.id.raw.toNat := by
      simpa [compact] using h
    rw [CompactRecord.encode_toNat, hid, hplace]
    simp only [compact, start, size]
    omega
  have hid : record.id.raw.toNat < 2 ^ 16 := h
  rw [hrecord, hcompact, Nat.testBit_two_pow_mul_add _ hid, Nat.testBit_two_pow_mul_add _ hid,
    Nat.testBit_two_pow_mul_add _ hint.toNat_lt,
    Nat.testBit_two_pow_mul_add _ (Nat.two_pow_pos 16), Nat.zero_testBit]
  by_cases hlow : bit < 16
  · simp [hlow, Nat.not_le_of_lt hlow]
  · by_cases hmiddle : bit < 32
    · have hhint : bit - 16 < 16 := by omega
      simp [hmiddle, hhint, hlow, Nat.le_of_not_lt hlow]
    · have hplaced : ¬bit - 16 < 16 := by omega
      simp [hlow, hmiddle, hplaced]

end Record

namespace RecordTable

/-- The packed records of a table, in the order in which they were added. -/
def words (table : RecordTable) : List UInt64 :=
  table.records.map Record.encode

/-- What comes of asking a table for a record. -/
structure AddsExactly (table : RecordTable) (place : Placement) : Prop where
  accepted_iff : (table.add? place).isSome ↔
    table.size < 32 ∧ place.offset ≤ 65535 ∧ place.length ≤ 65535 ∧
      place.offset + place.length ≤ table.limit
  /-- The place is packed behind the records that are there, which stay as they are. -/
  accepted : ∀ next, table.add? place = some next →
    table.recordPlaces [place] = ⟨next, [.added place table.size]⟩ ∧
      ∃ word, next.words = table.words ++ [word] ∧
        (Record.decode word).id = place.id ∧ (Record.decode word).start = place.offset ∧
          (Record.decode word).size = place.length
  refused : table.add? place = none →
    table.recordPlaces [place] = ⟨table, [table.refusal place]⟩

/-- What comes of giving another length to the record at an index. -/
structure ResizesExactly (table : RecordTable) (index length : Nat) : Prop where
  /-- The record keeps its identifier and its offset, and all others stay as they are. -/
  accepted : ∀ next, table.resize? index length = some next →
    table.recordResize index length = ⟨next, [.resized index length]⟩ ∧
      next.mask = table.mask ∧ next.limit = table.limit ∧
        next.words.length = table.words.length ∧
          (∀ other, other ≠ index → next.words[other]? = table.words[other]?) ∧
            ∃ before after, table.words[index]? = some before ∧ next.words[index]? = some after ∧
              (Record.decode after).id = (Record.decode before).id ∧
                (Record.decode after).start = (Record.decode before).start ∧
                  (Record.decode after).size = length
  refused : table.resize? index length = none →
    table.recordResize index length = ⟨table, [.unresizable index length]⟩

theorem addsExactly {table : RecordTable} (h : table.size ≤ capacity) (place : Placement) :
    table.AddsExactly place := by
  constructor
  · have hroom : table.size ≠ capacity ↔ table.size < 32 := by
      rw [capacity] at h ⊢
      omega
    rw [add?_isSome_iff, hroom]
  · intro next hnext
    refine ⟨by simp [recordPlaces, hnext], ?_⟩
    obtain ⟨_, hfits, rfl⟩ := add?_eq_some_iff.mp hnext
    obtain ⟨hoffset, hlength, _⟩ := (fits_iff _ _ _).mp hfits
    refine ⟨(Record.ofNats place.id place.offset place.length).encode, ?_, ?_⟩
    · simp [words]
    · rw [Record.decode_encode]
      exact ⟨rfl, start_ofNats _ hoffset, size_ofNats _ hlength⟩
  · intro hnone
    simp [recordPlaces, hnone]

theorem resizesExactly (table : RecordTable) (index length : Nat) :
    table.ResizesExactly index length := by
  constructor
  · intro next hnext
    refine ⟨by simp [recordResize, hnext], ?_⟩
    obtain ⟨record, hrecord, hfits, rfl⟩ := resize?_eq_some_iff.mp hnext
    obtain ⟨hindex, hget⟩ := List.getElem?_eq_some_iff.mp hrecord
    obtain ⟨_, hlength, _⟩ := (fits_iff _ _ _).mp hfits
    refine ⟨rfl, rfl, by simp [words], ?_, ?_⟩
    · intro other hother
      simp [words, List.getElem?_set_ne hother.symm]
    · refine ⟨record.encode, (Record.mk record.id record.offset length.toUInt16).encode, ?_, ?_, ?_⟩
      · simp [words, hrecord]
      · simp [words, hindex]
      · rw [Record.decode_encode, Record.decode_encode]
        exact ⟨rfl, rfl, show (Record.ofNats record.id 0 length).size = length from
          size_ofNats 0 hlength⟩
  · intro hnone
    simp [recordResize, hnone]

end RecordTable

/-- Packing and unpacking, of records and of their compact forms. -/
structure PacksExactly : Prop where
  decode_encode : ∀ record : Record, Record.decode record.encode = record
  encode_decode : ∀ word : UInt64, (Record.decode word).encode = word
  decode_encode_compact : ∀ record : CompactRecord, CompactRecord.decode record.encode = record
  encode_decode_compact : ∀ word : UInt64, (CompactRecord.decode word).encode = word
  hint : ∀ (record : Record) (hint : UInt16), record.id.raw.toNat < 65536 → ∀ bit : Nat,
    (record.compact hint).encode.toNat.testBit bit =
      if 16 ≤ bit ∧ bit < 32 then hint.toNat.testBit (bit - 16)
      else record.encode.toNat.testBit bit

theorem packsExactly : PacksExactly where
  decode_encode := Record.decode_encode
  encode_decode := Record.encode_decode
  decode_encode_compact := CompactRecord.decode_encode
  encode_decode_compact := CompactRecord.encode_decode
  hint := fun _ hint h => Record.testBit_encode_compact h hint

/-- Packing loses nothing, and no table of 32 slots stores anything but what it was asked for. -/
theorem packing_exact {table : RecordTable} (h : table.size ≤ RecordTable.capacity) :
    PacksExactly ∧ (∀ place, table.AddsExactly place) ∧
      ∀ index length, table.ResizesExactly index length :=
  ⟨packsExactly, RecordTable.addsExactly h, table.resizesExactly⟩

/-- A table with one record, of an identifier that has more than sixteen bits. -/
def wideTable : RecordTable :=
  ⟨[.ofNats ⟨0x01020304⟩ 0x1122 0x3344], 0, 65535⟩

theorem packing_wideTable :
    wideTable.size ≤ RecordTable.capacity ∧ wideTable.words = [0x3344112201020304] ∧
      PacksExactly ∧ (∀ place, wideTable.AddsExactly place) ∧
        ∀ index length, wideTable.ResizesExactly index length := by
  have hsize : wideTable.size ≤ RecordTable.capacity := by decide
  exact ⟨hsize, by decide, packing_exact hsize⟩

end Dissection

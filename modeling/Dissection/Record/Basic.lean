import Dissection.Protocol.Name

/-!
Records. A record says where in a frame one header or option lies, and packs
into a 64-bit word: the identifier in the low half, then the offset, then the
length. The compact form narrows the identifier to sixteen bits and carries a
hint in the sixteen bits behind it. Both packings are bijections
(`decode_encode`, `encode_decode`).
-/

namespace Dissection

/-- Where in a frame one header or option lies. -/
structure Record where
  id : ProtocolId
  offset : UInt16
  length : UInt16
  deriving DecidableEq, Repr, Inhabited

namespace Record

def start (record : Record) : Nat :=
  record.offset.toNat

def size (record : Record) : Nat :=
  record.length.toNat

def stop (record : Record) : Nat :=
  record.start + record.size

/-- The record of a place, cut down to sixteen bits where it is wider. -/
def ofNats (id : ProtocolId) (offset length : Nat) : Record :=
  ⟨id, offset.toUInt16, length.toUInt16⟩

def encode (record : Record) : UInt64 :=
  record.id.raw.toUInt64 + record.offset.toUInt64 * 0x100000000 +
    record.length.toUInt64 * 0x1000000000000

def decode (word : UInt64) : Record where
  id := ⟨word.toUInt32⟩
  offset := (word / 0x100000000).toUInt16
  length := (word / 0x1000000000000).toUInt16

def describe (record : Record) : String :=
  record.id.describe ++ "@" ++ toString record.start ++ "+" ++ toString record.size

theorem encode_toNat (record : Record) :
    record.encode.toNat =
      record.id.raw.toNat + record.start * 0x100000000 +
        record.size * 0x1000000000000 := by
  have hid := record.id.raw.toNat_lt
  have hoffset := record.offset.toNat_lt
  have hlength := record.length.toNat_lt
  simp only [encode, start, size, UInt64.toNat_add, UInt64.toNat_mul,
    UInt32.toNat_toUInt64, UInt16.toNat_toUInt64, UInt64.reduceToNat]
  omega

theorem decode_encode (record : Record) : decode record.encode = record := by
  have hid := record.id.raw.toNat_lt
  have hoffset := record.offset.toNat_lt
  have hlength := record.length.toNat_lt
  have hword := record.encode_toNat
  simp only [start, size] at hword
  obtain ⟨⟨id⟩, offset, length⟩ := record
  simp only [decode, Record.mk.injEq, ProtocolId.mk.injEq]
  refine ⟨UInt32.toNat.inj ?_, UInt16.toNat.inj ?_, UInt16.toNat.inj ?_⟩
  · simp only [UInt64.toNat_toUInt32, hword] at *
    omega
  · simp only [UInt64.toNat_toUInt16, UInt64.toNat_div, UInt64.reduceToNat, hword] at *
    omega
  · simp only [UInt64.toNat_toUInt16, UInt64.toNat_div, UInt64.reduceToNat, hword] at *
    omega

theorem encode_decode (word : UInt64) : (decode word).encode = word := by
  apply UInt64.toNat.inj
  have hword := word.toNat_lt
  rw [encode_toNat]
  simp only [decode, start, size, UInt64.toNat_toUInt32, UInt64.toNat_toUInt16,
    UInt64.toNat_div, UInt64.reduceToNat]
  omega

end Record

/-- A record in short: the identifier narrowed to sixteen bits, and a hint, such
as the index of the record in its table. -/
structure CompactRecord where
  id : UInt16
  hint : UInt16
  offset : UInt16
  length : UInt16
  deriving DecidableEq, Repr, Inhabited

def Record.compact (record : Record) (hint : UInt16) : CompactRecord :=
  ⟨record.id.raw.toUInt16, hint, record.offset, record.length⟩

namespace CompactRecord

def encode (record : CompactRecord) : UInt64 :=
  record.id.toUInt64 + record.hint.toUInt64 * 0x10000 +
    record.offset.toUInt64 * 0x100000000 + record.length.toUInt64 * 0x1000000000000

def decode (word : UInt64) : CompactRecord where
  id := word.toUInt16
  hint := (word / 0x10000).toUInt16
  offset := (word / 0x100000000).toUInt16
  length := (word / 0x1000000000000).toUInt16

def describe (record : CompactRecord) : String :=
  "CompactDescriptor \x7b id: " ++ toString record.id.toNat ++
    ", meta: " ++ toString record.hint.toNat ++
    ", offset: " ++ toString record.offset.toNat ++
    ", length: " ++ toString record.length.toNat ++ " \x7d"

theorem encode_toNat (record : CompactRecord) :
    record.encode.toNat =
      record.id.toNat + record.hint.toNat * 0x10000 + record.offset.toNat * 0x100000000 +
        record.length.toNat * 0x1000000000000 := by
  have hid := record.id.toNat_lt
  have hhint := record.hint.toNat_lt
  have hoffset := record.offset.toNat_lt
  have hlength := record.length.toNat_lt
  simp only [encode, UInt64.toNat_add, UInt64.toNat_mul, UInt16.toNat_toUInt64,
    UInt64.reduceToNat]
  omega

theorem decode_encode (record : CompactRecord) : decode record.encode = record := by
  have hid := record.id.toNat_lt
  have hhint := record.hint.toNat_lt
  have hoffset := record.offset.toNat_lt
  have hlength := record.length.toNat_lt
  have hword := record.encode_toNat
  obtain ⟨id, hint, offset, length⟩ := record
  simp only [decode, CompactRecord.mk.injEq]
  refine ⟨UInt16.toNat.inj ?_, UInt16.toNat.inj ?_, UInt16.toNat.inj ?_,
    UInt16.toNat.inj ?_⟩ <;>
    simp only [UInt64.toNat_toUInt16, UInt64.toNat_div, UInt64.reduceToNat, hword] at * <;>
    omega

theorem encode_decode (word : UInt64) : (decode word).encode = word := by
  apply UInt64.toNat.inj
  have hword := word.toNat_lt
  rw [encode_toNat]
  simp only [decode, UInt64.toNat_toUInt16, UInt64.toNat_div, UInt64.reduceToNat]
  omega

end CompactRecord

end Dissection

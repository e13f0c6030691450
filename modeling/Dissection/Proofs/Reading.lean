import Dissection.Header.Fields
import Dissection.Proofs.Binding

namespace Dissection

open Bytes

namespace Bound

variable {header : ReadableHeader} {bound : Bound header}

theorem u8?_bytes (bound : Bound header) {index : Nat} (h : index < header.leastLength) :
    u8? bound.bytes index = some (bound.word8 index h) := by
  have hlt := Nat.lt_of_lt_of_le h bound.leastLength_le
  simp [u8?, word8, byte, hlt]

theorem u16?_bytes (bound : Bound header) {index : Nat} (h : index + 1 < header.leastLength) :
    u16? bound.bytes index = some (bound.word16 index h) := by
  rw [u16?, bound.u8?_bytes (Nat.lt_of_succ_lt h), bound.u8?_bytes h]
  rfl

theorem u32?_bytes (bound : Bound header) {index : Nat} (h : index + 3 < header.leastLength) :
    u32? bound.bytes index = some (bound.word32 index h) := by
  have hlow : index + 2 + 1 < header.leastLength := h
  rw [u32?, bound.u16?_bytes (by omega), bound.u16?_bytes hlow]
  rfl

/-- The text of some bytes of a header, all of which are there. -/
def Shows (bound : Bound header) (index count : Nat) (format : Bytes → String) (text : String) :
    Prop :=
  ∃ part, Bytes.slice bound.bytes index count = .ok part ∧ text = format part

theorem shows_slice (bound : Bound header) {index count : Nat} (format : Bytes → String)
    (hcount : 0 < count) (h : index + count ≤ header.leastLength) :
    bound.Shows index count format (format (bound.slice index count)) := by
  have hle := bound.leastLength_le
  refine ⟨bound.slice index count, ?_, rfl⟩
  rw [slice_eq_ok_iff]
  exact ⟨by omega, by omega, rfl⟩

/-- Every field of a header is read from bytes of it. Flags and the like are told by these. -/
def Holds : {header : ReadableHeader} → Bound header → Prop
  | .ethernet, bound =>
      bound.Shows 0 6 Address.hardware (EthernetHeader.destination bound) ∧
        bound.Shows 6 6 Address.hardware (EthernetHeader.source bound) ∧
        u16? bound.bytes 12 = some (EthernetHeader.typeField bound)
  | .ipv4, bound =>
      (∃ byte, u8? bound.bytes 0 = some byte ∧ Ipv4Header.version bound = byte / 16 ∧
          Ipv4Header.headerWords bound = byte % 16) ∧
        u8? bound.bytes 1 = some (Ipv4Header.services bound) ∧
        u16? bound.bytes 2 = some (Ipv4Header.totalLength bound) ∧
        u16? bound.bytes 4 = some (Ipv4Header.identification bound) ∧
        u16? bound.bytes 6 = some (Ipv4Header.fragmentField bound) ∧
        u8? bound.bytes 8 = some (Ipv4Header.timeToLive bound) ∧
        u8? bound.bytes 9 = some (Ipv4Header.protocol bound) ∧
        u16? bound.bytes 10 = some (Ipv4Header.checksum bound) ∧
        bound.Shows 12 4 Address.ipv4 (Ipv4Header.source bound) ∧
        bound.Shows 16 4 Address.ipv4 (Ipv4Header.destination bound)
  | .ipv6, bound =>
      (∃ byte, u8? bound.bytes 0 = some byte ∧ Ipv6Header.version bound = byte / 16) ∧
        u32? bound.bytes 0 = some (Ipv6Header.flowField bound) ∧
        u16? bound.bytes 4 = some (Ipv6Header.payloadLength bound) ∧
        u8? bound.bytes 6 = some (Ipv6Header.nextHeader bound) ∧
        u8? bound.bytes 7 = some (Ipv6Header.hopLimit bound) ∧
        bound.Shows 8 16 Address.ipv6 (Ipv6Header.source bound) ∧
        bound.Shows 24 16 Address.ipv6 (Ipv6Header.destination bound)
  | .tcp, bound =>
      u16? bound.bytes 0 = some (TcpHeader.sourcePort bound) ∧
        u16? bound.bytes 2 = some (TcpHeader.destinationPort bound) ∧
        u32? bound.bytes 4 = some (TcpHeader.sequenceNumber bound) ∧
        u32? bound.bytes 8 = some (TcpHeader.acknowledgmentNumber bound) ∧
        (∃ byte, u8? bound.bytes 12 = some byte ∧ TcpHeader.dataOffset bound = byte / 16) ∧
        u8? bound.bytes 13 = some (TcpHeader.flags bound) ∧
        u16? bound.bytes 14 = some (TcpHeader.window bound) ∧
        u16? bound.bytes 16 = some (TcpHeader.checksum bound) ∧
        u16? bound.bytes 18 = some (TcpHeader.urgentPointer bound)
  | .udp, bound =>
      u16? bound.bytes 0 = some (UdpHeader.sourcePort bound) ∧
        u16? bound.bytes 2 = some (UdpHeader.destinationPort bound) ∧
        u16? bound.bytes 4 = some (UdpHeader.datagramLength bound) ∧
        u16? bound.bytes 6 = some (UdpHeader.checksum bound)

theorem holds (bound : Bound header) : bound.Holds := by
  cases header with
  | ethernet =>
      exact ⟨bound.shows_slice _ (by decide) (by decide),
        bound.shows_slice _ (by decide) (by decide), bound.u16?_bytes _⟩
  | ipv4 =>
      exact ⟨⟨_, bound.u8?_bytes (by decide), rfl, rfl⟩, bound.u8?_bytes _, bound.u16?_bytes _,
        bound.u16?_bytes _, bound.u16?_bytes _, bound.u8?_bytes _, bound.u8?_bytes _,
        bound.u16?_bytes _, bound.shows_slice _ (by decide) (by decide),
        bound.shows_slice _ (by decide) (by decide)⟩
  | ipv6 =>
      exact ⟨⟨_, bound.u8?_bytes (by decide), rfl⟩, bound.u32?_bytes _, bound.u16?_bytes _,
        bound.u8?_bytes _, bound.u8?_bytes _, bound.shows_slice _ (by decide) (by decide),
        bound.shows_slice _ (by decide) (by decide)⟩
  | tcp =>
      exact ⟨bound.u16?_bytes _, bound.u16?_bytes _, bound.u32?_bytes _, bound.u32?_bytes _,
        ⟨_, bound.u8?_bytes (by decide), rfl⟩, bound.u8?_bytes _, bound.u16?_bytes _,
        bound.u16?_bytes _, bound.u16?_bytes _⟩
  | udp =>
      exact ⟨bound.u16?_bytes _, bound.u16?_bytes _, bound.u16?_bytes _, bound.u16?_bytes _⟩

theorem bind_eq_ok_iff {frame : Bytes} {record : Record} (hid : record.id = header.kind.id) :
    (∃ bound, bind header frame record = .ok bound) ↔
      header.leastLength ≤ record.size ∧ record.stop ≤ frame.length := by
  rw [bind, if_neg (not_not_intro hid)]
  split <;> simp_all

theorem bind_eq_error_iff {frame : Bytes} {record : Record} (hid : record.id = header.kind.id)
    (error : BindError) :
    bind header frame record = .error error ↔
      error = .invalidRead ∧ ¬(header.leastLength ≤ record.size ∧ record.stop ≤ frame.length) := by
  rw [bind, if_neg (not_not_intro hid)]
  split
  · simp_all
  · rename_i hmisfit
    simp [hmisfit, eq_comm]

end Bound

namespace Descriptor

/-- How a header is bound by whatever was read: by the record that is looked up, if that is
there, long enough and within the frame. -/
structure BindsExactly (view : Descriptor) (header : ReadableHeader) (frame : Bytes)
    (depth : Nat) : Prop where
  ok_iff : (∃ bound, view.bind header frame depth = .ok bound) ↔
    ∃ slot record, view.lookup header.kind.id depth = some (slot, record) ∧
      header.leastLength ≤ record.size ∧ record.stop ≤ frame.length
  invalidProtocol_iff : view.bind header frame depth = .error .invalidProtocol ↔
    (view.records.countP fun record => record.id == header.kind.id) ≤ depth
  invalidRead_iff : view.bind header frame depth = .error .invalidRead ↔
    ∃ slot record, view.lookup header.kind.id depth = some (slot, record) ∧
      ¬(header.leastLength ≤ record.size ∧ record.stop ≤ frame.length)
  bound : ∀ bound, view.bind header frame depth = .ok bound →
    ∃ slot record, view.lookup header.kind.id depth = some (slot, record) ∧
      bound.Spans frame record.place ∧ bound.Reads frame ∧ bound.Holds

theorem bindsExactly (view : Descriptor) (header : ReadableHeader) (frame : Bytes) (depth : Nat) :
    view.BindsExactly header frame depth := by
  have hcount := lookupRecord_isSome_iff view.records header.kind.id depth
  cases hlookup : lookupRecord view.records header.kind.id depth with
  | none =>
      rw [hlookup, Option.isSome_none] at hcount
      have hbind : view.bind header frame depth = .error .invalidProtocol := by
        rw [bind, lookup, hlookup]
      constructor
      · simp [hbind, lookup, hlookup]
      · simpa [hbind] using hcount
      · simp [hbind, lookup, hlookup]
      · simp [hbind]
  | some entry =>
      obtain ⟨slot, record⟩ := entry
      obtain ⟨_, hid⟩ := lookupRecord_eq_some hlookup
      rw [hlookup, Option.isSome_some] at hcount
      have hbind : view.bind header frame depth = Bound.bind header frame record := by
        rw [bind, lookup, hlookup]
      constructor
      · simp [hbind, Bound.bind_eq_ok_iff hid, lookup, hlookup]
      · rw [hbind, Bound.bind_eq_error_iff hid]
        simpa using hcount
      · simp [hbind, Bound.bind_eq_error_iff hid, lookup, hlookup]
      · intro bound hbound
        rw [hbind] at hbound
        obtain ⟨hleast, hstop⟩ := (Bound.bind_eq_ok_iff hid).mp ⟨bound, hbound⟩
        obtain ⟨same, hsame, hspans⟩ := Bound.bind_of_record hid hleast hstop
        cases hbound.symm.trans hsame
        exact ⟨slot, record, hlookup, hspans, hspans.reads, bound.holds⟩

/-- The number that some of the first bytes of a buffer spell, all of which are there. -/
def Spells (order : ByteOrder) (buffer : Bytes) (offset width value : Nat) : Prop :=
  ∃ word, Bytes.slice (buffer.take 288) offset width = .ok word ∧ order.decode word = value

/-- The value that the byte at an offset stands for, which is there. -/
def Codes {α : Type} (buffer : Bytes) (offset : Nat) (ofByte : UInt8 → α) (value : α) : Prop :=
  ∃ byte, buffer[offset]? = some byte ∧ ofByte byte = value

/-- What is read of a buffer is what stands in its first bytes. -/
structure ReadOf (view : Descriptor) (order : ByteOrder) (buffer : Bytes) : Prop where
  count_eq : ∃ count : UInt8, buffer[17]? = some count ∧ view.records.length = min count.toNat 32
  get?_isSome_iff : ∀ slot, (view.get? slot).isSome ↔ slot < view.records.length
  /-- The records stand in their slots, in order. -/
  slots : ∀ slot record, view.get? slot = some record →
    Spells order buffer (32 + slot * 8) 8 record.encode.toNat
  words : Spells order buffer 0 8 view.timestamp.toNat ∧
    Spells order buffer 8 2 view.capturedLength.toNat ∧
    Spells order buffer 12 2 view.wireLength.toNat ∧
    Spells order buffer 19 3 view.metadata.hash.toNat ∧ Spells order buffer 24 8 view.mask.toNat
  codes : Codes buffer 10 id view.metadata.rxPort ∧ Codes buffer 11 id view.metadata.txPort ∧
    Codes buffer 14 TxFlags.mk view.metadata.txFlags ∧ Codes buffer 15 LinkType.ofCode view.link ∧
    Codes buffer 16 HashType.ofCode view.metadata.hashType ∧
    Codes buffer 18 FragmentFlags.mk view.fragment ∧
    Codes buffer 22 NetworkType.ofCode view.network ∧
    Codes buffer 23 TransportType.ofCode view.transport
  /-- No other bytes are looked at. -/
  front_only : ∀ other : Bytes, 288 ≤ other.length → other.take 288 = buffer.take 288 →
    readFrom order other = .ok view

section Reading

variable {order : ByteOrder} {buffer : Bytes}

theorem decode_lt (order : ByteOrder) (bytes : Bytes) :
    order.decode bytes < Nat.pow 256 bytes.length := by
  cases order with
  | little => exact ByteOrder.ofDigits_lt bytes
  | big =>
      have h := ByteOrder.ofDigits_lt bytes.reverse
      rwa [List.length_reverse] at h

theorem word_of_front (order : ByteOrder) (h : 288 ≤ buffer.length) {offset width : Nat}
    (hwidth : 0 < width) (hwithin : offset + width ≤ 288) :
    Spells order buffer offset width (word order (buffer.take 288) offset width) ∧
      word order (buffer.take 288) offset width < Nat.pow 256 width := by
  have hfront : (buffer.take 288).length = 288 := List.length_take_of_le h
  refine ⟨⟨((buffer.take 288).drop offset).take width, ?_, rfl⟩, ?_⟩
  · rw [slice_eq_ok_iff]
    exact ⟨by omega, by omega, rfl⟩
  · have hlength : (((buffer.take 288).drop offset).take width).length = width := by
      rw [List.length_take, List.length_drop, hfront]
      omega
    have hlt := decode_lt order (((buffer.take 288).drop offset).take width)
    rwa [hlength] at hlt

theorem codes_byte {α : Type} (ofByte : UInt8 → α) (h : 288 ≤ buffer.length) {offset : Nat}
    (hwithin : offset < 288) :
    Codes buffer offset ofByte (ofByte (byte (buffer.take 288) offset)) := by
  have hbyte : offset < buffer.length := by omega
  refine ⟨buffer[offset], List.getElem?_eq_getElem hbyte, ?_⟩
  rw [byte, List.getElem?_take_of_lt hwithin, List.getElem?_eq_getElem hbyte]
  rfl

theorem readFrom_of_le (order : ByteOrder) (h : 288 ≤ buffer.length) :
    readFrom order buffer = .ok (decode order (buffer.take 288)) := by
  have hhas : buffer.has size = true := (Bytes.has_eq_true_iff _ _).mpr h
  rw [readFrom, if_pos hhas]
  rfl

theorem readOf_decode (order : ByteOrder) (h : 288 ≤ buffer.length) :
    (decode order (buffer.take 288)).ReadOf order buffer := by
  have hlength : (decode order (buffer.take 288)).records.length =
      recordCount (buffer.take 288) := by simp [decode]
  have hspells {offset width : Nat} (hwidth : 0 < width) (hwithin : offset + width ≤ 288)
      {value : Nat}
      (hvalue : word order (buffer.take 288) offset width % Nat.pow 256 width = value) :
      Spells order buffer offset width value := by
    obtain ⟨hspells, hlt⟩ := word_of_front order h hwidth hwithin
    rwa [← hvalue, Nat.mod_eq_of_lt hlt]
  constructor
  · obtain ⟨count, hcount, hbyte⟩ := codes_byte id h (by decide : 17 < 288)
    refine ⟨count, hcount, ?_⟩
    rw [hlength, recordCount, ← id_eq (byte _ 17), ← hbyte]
    rfl
  · intro slot
    simp [get?]
  · intro slot record hrecord
    obtain ⟨hslot, rfl⟩ := List.getElem?_eq_some_iff.mp hrecord
    have hcount : slot < 32 := by
      rw [hlength] at hslot
      exact Nat.lt_of_lt_of_le hslot (Nat.min_le_right _ _)
    apply hspells (by decide) (by omega)
    simp only [decode, List.getElem_map, List.getElem_range, slotRecord, Record.encode_decode]
    simp [slotsOffset, slotSize]
  · refine ⟨hspells (by decide) (by decide) ?_, hspells (by decide) (by decide) ?_,
      hspells (by decide) (by decide) ?_, ?_, hspells (by decide) (by decide) ?_⟩
    · simp [decode]
    · simp [decode]
    · simp [decode]
    · obtain ⟨hword, hlt⟩ := word_of_front order h (by decide : 0 < 3) (by decide : 19 + 3 ≤ 288)
      have hhash : (decode order (buffer.take 288)).metadata.hash.toNat =
          word order (buffer.take 288) 19 3 := by
        have hwide : word order (buffer.take 288) 19 3 < 4294967296 :=
          Nat.lt_trans hlt (by decide)
        simpa [decode] using hwide
      rw [hhash]
      exact hword
    · simp [decode]
  · exact ⟨codes_byte _ h (by decide), codes_byte _ h (by decide), codes_byte _ h (by decide),
      codes_byte _ h (by decide), codes_byte _ h (by decide), codes_byte _ h (by decide),
      codes_byte _ h (by decide), codes_byte _ h (by decide)⟩
  · intro other hother hsame
    rw [readFrom_of_le order hother, hsame]

end Reading

/-- Whatever stands in a buffer with room for a descriptor, it is read as one, and headers are
bound by it exactly where there are records that fit the frame. -/
theorem readFrom_exact (order : ByteOrder) {buffer : Bytes} (h : 288 ≤ buffer.length) :
    ∃ view, readFrom order buffer = .ok view ∧ view.ReadOf order buffer ∧
      view.records.length ≤ 32 ∧
        ∀ header frame depth, view.BindsExactly header frame depth := by
  have hread := readOf_decode order h
  obtain ⟨count, _, hcount⟩ := hread.count_eq
  refine ⟨_, readFrom_of_le order h, hread, ?_, ?_⟩
  · rw [hcount]
    exact Nat.min_le_right _ _
  · intro header frame depth
    exact bindsExactly _ header frame depth

theorem exact_ones :
    288 ≤ (List.replicate 300 (0xFF : UInt8)).length ∧
      ∃ view, readFrom .big (List.replicate 300 0xFF) = .ok view ∧ view.records.length = 32 ∧
        ∀ header frame depth, view.BindsExactly header frame depth := by
  have hlength : 288 ≤ (List.replicate 300 (0xFF : UInt8)).length := by
    rw [List.length_replicate]
    decide
  obtain ⟨view, hview, hread, _, hbinds⟩ := readFrom_exact .big hlength
  obtain ⟨count, hcount, hrecords⟩ := hread.count_eq
  rw [List.getElem?_replicate_of_lt (by decide)] at hcount
  cases hcount
  exact ⟨hlength, view, hview, hrecords, hbinds⟩

end Descriptor

end Dissection

import Dissection.Proofs.SessionInvariant

namespace Dissection

namespace Descriptor

variable {order : ByteOrder} {front behind : Bytes} {offset width : Nat}

section Layout

@[simp] theorem word_append_of_le (h : front.length ≤ offset) :
    word order (front ++ behind) offset width =
      word order behind (offset - front.length) width := by
  rw [word, word, List.drop_append, List.drop_eq_nil_of_le h, List.nil_append]

@[simp] theorem word_encode_append {value : Nat} (h : value < Nat.pow 256 width) :
    word order (order.encode width value ++ behind) 0 width = value := by
  have hlength := order.encode_length width value
  rw [word, List.drop_zero, List.take_append_of_le_length (Nat.le_of_eq hlength.symm),
    List.take_of_length_le (Nat.le_of_eq hlength), order.decode_encode h]

@[simp] theorem byte_append_of_le (h : front.length ≤ offset) :
    byte (front ++ behind) offset = byte behind (offset - front.length) := by
  rw [byte, byte, List.getElem?_append_right h]

@[simp] theorem byte_cons_zero (value : UInt8) : byte (value :: behind) 0 = value :=
  rfl

@[simp] theorem byte_cons_succ (value : UInt8) :
    byte (value :: behind) (offset + 1) = byte behind offset :=
  rfl

@[simp] theorem word_cons_succ (value : UInt8) :
    word order (value :: behind) (offset + 1) width = word order behind offset width :=
  rfl

end Layout

theorem encodeFields_length (order : ByteOrder) (descriptor : Descriptor) :
    (encodeFields order descriptor).length = slotsOffset := by
  simp [encodeFields, slotsOffset]

theorem slots_length (order : ByteOrder) (records : List Record) :
    (records.flatMap fun record => order.encode slotSize record.encode.toNat).length =
      records.length * slotSize := by
  induction records with
  | nil => rfl
  | cons record rest ih =>
      rw [List.flatMap_cons, List.length_append, ih, order.encode_length, List.length_cons,
        Nat.add_mul, Nat.one_mul, Nat.add_comm]

theorem encodeSlots_length (order : ByteOrder) (records : List Record) :
    (encodeSlots order records).length = RecordTable.capacity * slotSize := by
  have hslots := slots_length order (records.take RecordTable.capacity)
  have hcount : (records.take RecordTable.capacity).length * slotSize ≤
      RecordTable.capacity * slotSize :=
    Nat.mul_le_mul_right _ (List.length_take_le _ _)
  rw [encodeSlots, List.length_append, List.length_replicate, hslots]
  omega

theorem encode_length (order : ByteOrder) (descriptor : Descriptor) :
    (encode order descriptor).length = size := by
  rw [encode, List.length_append, encodeFields_length, encodeSlots_length, size]

theorem word_slots {records : List Record} {slot : Nat} (h : slot < records.length)
    (behind : Bytes) :
    word order ((records.flatMap fun record => order.encode slotSize record.encode.toNat) ++
      behind) (slot * slotSize) slotSize = records[slot].encode.toNat := by
  induction records generalizing slot with
  | nil => cases h
  | cons record rest ih =>
      rw [List.flatMap_cons, List.append_assoc]
      cases slot with
      | zero =>
          rw [Nat.zero_mul]
          exact word_encode_append record.encode.toNat_lt
      | succ slot =>
          have hlength := order.encode_length slotSize record.encode.toNat
          have hoffset : (slot + 1) * slotSize = slot * slotSize + slotSize := Nat.succ_mul _ _
          rw [word_append_of_le (by omega), hlength, hoffset, Nat.add_sub_cancel,
            ih (Nat.lt_of_succ_lt_succ h)]
          rfl

/-- A descriptor whose values fit their places in the layout. -/
structure Fits (descriptor : Descriptor) : Prop where
  hash_lt : descriptor.metadata.hash.toNat < Nat.pow 256 3
  records_le : descriptor.records.length ≤ RecordTable.capacity

section Fields

variable (order : ByteOrder) {descriptor : Descriptor}

theorem words_encode (h : descriptor.Fits) :
    word order (encode order descriptor) 0 8 = descriptor.timestamp.toNat ∧
      word order (encode order descriptor) 8 2 = descriptor.capturedLength.toNat ∧
      word order (encode order descriptor) 12 2 = descriptor.wireLength.toNat ∧
      word order (encode order descriptor) 19 3 = descriptor.metadata.hash.toNat ∧
      word order (encode order descriptor) 24 8 = descriptor.mask.toNat := by
  have htimestamp : descriptor.timestamp.toNat < Nat.pow 256 8 := descriptor.timestamp.toNat_lt
  have hcaptured : descriptor.capturedLength.toNat < Nat.pow 256 2 :=
    descriptor.capturedLength.toNat_lt
  have hwire : descriptor.wireLength.toNat < Nat.pow 256 2 := descriptor.wireLength.toNat_lt
  have hmask : descriptor.mask.toNat < Nat.pow 256 8 := descriptor.mask.toNat_lt
  simp [encode, encodeFields, htimestamp, hcaptured, hwire, h.hash_lt, hmask]

theorem bytes_encode (descriptor : Descriptor) :
    byte (encode order descriptor) 10 = descriptor.metadata.rxPort ∧
      byte (encode order descriptor) 11 = descriptor.metadata.txPort ∧
      byte (encode order descriptor) 14 = descriptor.metadata.txFlags.bits ∧
      byte (encode order descriptor) 15 = descriptor.link.code ∧
      byte (encode order descriptor) 16 = descriptor.metadata.hashType.code ∧
      byte (encode order descriptor) 17 = descriptor.records.length.toUInt8 ∧
      byte (encode order descriptor) 18 = descriptor.fragment.bits ∧
      byte (encode order descriptor) 22 = descriptor.network.code ∧
      byte (encode order descriptor) 23 = descriptor.transport.code := by
  simp [encode, encodeFields]

theorem recordCount_encode (h : descriptor.Fits) :
    recordCount (encode order descriptor) = descriptor.records.length := by
  have hrecords := h.records_le
  rw [recordCount, (bytes_encode order descriptor).2.2.2.2.2.1]
  simp only [RecordTable.capacity, Nat.toUInt8_eq, UInt8.toNat_ofNat'] at hrecords ⊢
  omega

theorem slotRecord_encode (h : descriptor.Fits) {slot : Nat}
    (hslot : slot < descriptor.records.length) :
    slotRecord order (encode order descriptor) slot = descriptor.records[slot] := by
  have hword : word order (encode order descriptor) (slotsOffset + slot * slotSize) slotSize =
      descriptor.records[slot].encode.toNat := by
    rw [encode, word_append_of_le (by rw [encodeFields_length]; omega), encodeFields_length,
      Nat.add_sub_cancel_left, encodeSlots]
    simp only [List.take_of_length_le h.records_le]
    exact word_slots hslot _
  rw [slotRecord, hword]
  simp [Record.decode_encode]

theorem records_encode (h : descriptor.Fits) :
    (List.range (recordCount (encode order descriptor))).map
      (slotRecord order (encode order descriptor)) = descriptor.records := by
  rw [recordCount_encode order h]
  refine List.ext_getElem (by simp) ?_
  intro slot _ hslot
  rw [List.getElem_map, List.getElem_range, slotRecord_encode order h hslot]

/-- A descriptor whose values fit is read back as it was written. -/
theorem decode_encode (h : descriptor.Fits) :
    decode order (encode order descriptor) = descriptor := by
  obtain ⟨htimestamp, hcaptured, hwire, hhash, hmask⟩ := words_encode order h
  obtain ⟨hrx, htx, hflags, hlink, htype, _, hfragment, hnetwork, htransport⟩ :=
    bytes_encode order descriptor
  rw [decode, records_encode order h, htimestamp, hcaptured, hwire, hhash, hmask, hrx, htx, hflags,
    hlink, htype, hfragment, hnetwork, htransport]
  simp

theorem readFrom_encode (h : descriptor.Fits) (behind : Bytes) :
    readFrom order (encode order descriptor ++ behind) = .ok descriptor := by
  have hlength := encode_length order descriptor
  have hhas : (encode order descriptor ++ behind).has size = true := by
    rw [Bytes.has_eq_true_iff, List.length_append]
    omega
  rw [readFrom, if_pos hhas, List.take_left' hlength, decode_encode order h]

end Fields

/-- What is read of a packet is what the dissector that wrote it holds. -/
structure Shows (view : Descriptor) (dissector : Dissector) : Prop where
  timestamp : view.timestamp = dissector.packet.timestamp
  capturedLength : view.capturedLength.toNat = dissector.packet.capturedLength
  wireLength : view.wireLength.toNat = dissector.packet.wireLength
  metadata : view.metadata = dissector.metadata
  link : view.link = dissector.packet.summary.link
  network : view.network = dissector.packet.summary.network
  transport : view.transport = dissector.packet.summary.transport
  fragment : view.fragment = dissector.packet.summary.fragment
  mask : view.mask = dissector.table.mask
  records : view.records = dissector.table.records
  lookup : ∀ id depth, view.lookup id depth = dissector.lookup id depth

end Descriptor

namespace Dissector

/-- The hash of a dissector has 24 bits and its wire length sixteen. -/
structure Narrow (dissector : Dissector) : Prop where
  hash_lt : dissector.metadata.hash.toNat < Nat.pow 256 3
  wire_le : dissector.packet.wireLength ≤ 65535

theorem narrow_new (settings : Settings) : (new settings).Narrow :=
  ⟨show (0 : UInt32).toNat < Nat.pow 256 3 by decide, Nat.zero_le _⟩

theorem narrow_reset (dissector : Dissector) : dissector.reset.Narrow :=
  ⟨show (0 : UInt32).toNat < Nat.pow 256 3 by decide, Nat.zero_le _⟩

theorem narrow_setHash {dissector : Dissector} (h : dissector.Narrow) (hash : UInt32)
    (type : HashType) : (dissector.setHash hash type).Narrow := by
  refine ⟨?_, h.wire_le⟩
  change (hash % 0x1000000).toNat < 256 ^ 3
  rw [UInt32.toNat_mod]
  exact Nat.mod_lt _ (by decide)

theorem narrow_dissect {dissector : Dissector} (h : dissector.Narrow) (frame : Bytes)
    (timestamp : UInt64) (captured wire : Nat) :
    (dissector.dissect frame timestamp captured wire).dissector.Narrow := by
  cases hcaptured : dissector.captured? frame captured wire with
  | error error => simpa only [dissect, hcaptured] using h
  | ok bytes =>
      obtain ⟨_, _, hwire, _⟩ := captured?_eq_ok_iff.mp hcaptured
      simp only [dissect, hcaptured]
      exact ⟨h.hash_lt, hwire⟩

theorem descriptor?_of_holding {dissector : Dissector} {start : UInt64}
    (hsound : dissector.Sound start) (hnarrow : dissector.Narrow)
    (hholding : dissector.isIdle = false) :
    ∃ descriptor, dissector.descriptor? = some descriptor ∧ descriptor.Fits ∧
      descriptor.Shows dissector := by
  obtain ⟨settings, extension, metadata, phase⟩ := dissector
  cases phase with
  | idle _ => cases hholding
  | holding packet =>
      have hcaptured := hsound.limit_eq ▸ hsound.limit_le
      have hwire := hnarrow.wire_le
      simp only [Dissector.packet] at hcaptured hwire
      refine ⟨_, rfl, ⟨hnarrow.hash_lt, hsound.table.size_le⟩, ?_⟩
      refine ⟨rfl, ?_, ?_, rfl, rfl, rfl, rfl, rfl, rfl, rfl, fun _ _ => rfl⟩
      · simp only [Dissector.packet, Nat.toUInt16_eq, UInt16.toNat_ofNat']
        omega
      · simp only [Dissector.packet, Nat.toUInt16_eq, UInt16.toNat_ofNat']
        omega

theorem roundTrip_of_holding {dissector : Dissector} {start : UInt64}
    (hsound : dissector.Sound start) (hnarrow : dissector.Narrow) (order : ByteOrder)
    (hholding : dissector.isIdle = false) :
    ∃ bytes : Bytes, bytes.length = 288 ∧ ∀ buffer : Bytes, 288 ≤ buffer.length →
      dissector.write order buffer = .ok (bytes ++ buffer.drop 288) ∧
        ∃ view, Descriptor.readFrom order (bytes ++ buffer.drop 288) = .ok view ∧
          view.Shows dissector := by
  obtain ⟨descriptor, hdescriptor, hfits, hshows⟩ :=
    descriptor?_of_holding hsound hnarrow hholding
  refine ⟨descriptor.encode order, descriptor.encode_length order, ?_⟩
  intro buffer hbuffer
  have hhas : buffer.has Descriptor.size = true := (Bytes.has_eq_true_iff _ _).mpr hbuffer
  refine ⟨?_, descriptor, Descriptor.readFrom_encode order hfits _, hshows⟩
  simp only [write, hdescriptor, Descriptor.writeInto, hhas, if_true]
  rfl

end Dissector

namespace Session

theorem perform_narrow {session : Session} (command : Command)
    (h : session.dissector.Narrow) : (session.perform command).1.dissector.Narrow := by
  cases command with
  | reset => exact session.dissector.narrow_reset
  | setHash hash type => exact Dissector.narrow_setHash h hash type
  | dissect frame timestamp captured wire =>
      exact Dissector.narrow_dissect h frame timestamp captured wire
  | _ => exact ⟨h.hash_lt, h.wire_le⟩

theorem run_narrow (settings : Settings) (commands : List Command) :
    ((new settings).run commands).dissector.Narrow := by
  suffices hall : ∀ (commands : List Command) (session : Session),
      session.dissector.Narrow → (session.run commands).dissector.Narrow from
    hall commands (new settings) (Dissector.narrow_new settings)
  intro commands
  induction commands with
  | nil =>
      intro session h
      exact h
  | cons command rest ih =>
      intro session h
      exact ih _ (perform_narrow command h)

/-- Of every packet that a session holds, in either byte order, the same 288 bytes are
written over the front of any buffer with room for them, and reading the buffer gives back
what the session holds. -/
theorem run_roundTrip (settings : Settings) (commands : List Command) (order : ByteOrder)
    (h : ((new settings).run commands).dissector.isIdle = false) :
    ∃ bytes : Bytes, bytes.length = 288 ∧ ∀ buffer : Bytes, 288 ≤ buffer.length →
      ((new settings).run commands).dissector.write order buffer =
          .ok (bytes ++ buffer.drop 288) ∧
        ∃ view, Descriptor.readFrom order (bytes ++ buffer.drop 288) = .ok view ∧
          view.Shows ((new settings).run commands).dissector :=
  Dissector.roundTrip_of_holding (sound_run commands (Dissector.sound_new settings))
    (run_narrow settings commands) order h

/-- A packet with all metadata set, of a hash that is cut down to 24 bits. -/
def hashedCommands : List Command :=
  [.setPorts 1 2, .setTxFlags ⟨0xFF⟩, .setHash 0xFFFFFFFF .tuple5,
    .dissect (List.replicate 60 0) 7 60 1514]

theorem roundTrip_hashedCommands :
    ((new .default).run hashedCommands).dissector.isIdle = false ∧
      ∃ bytes : Bytes, bytes.length = 288 ∧ ∀ buffer : Bytes, 288 ≤ buffer.length →
        ((new .default).run hashedCommands).dissector.write .big buffer =
            .ok (bytes ++ buffer.drop 288) ∧
          ∃ view, Descriptor.readFrom .big (bytes ++ buffer.drop 288) = .ok view ∧
            view.Shows ((new .default).run hashedCommands).dissector := by
  have hholding : ((new .default).run hashedCommands).dissector.isIdle = false := by decide
  exact ⟨hholding, run_roundTrip _ _ _ hholding⟩

end Session

end Dissection

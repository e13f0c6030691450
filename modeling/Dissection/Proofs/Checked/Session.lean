import Dissection.Proofs.Checked.Recording
import Dissection.Proofs.RoundTrip

namespace Dissection

namespace Checked

def conclude (extension : Option Extension) (captured : Bytes) (table : RecordTable)
    (offset : Nat) : Ending → Checked Conclusion
  | .silent => .ok ⟨⟨table, []⟩, extension⟩
  | .remark note => .ok ⟨⟨table, [.noted offset note]⟩, extension⟩
  | .unclaimed hook =>
      let note := (hook.note?.map (.noted offset)).toList
      match extension with
      | none => .ok ⟨⟨table, note⟩, none⟩
      | some consulted => do
          let offer : Offer := ⟨hook, captured, offset, table⟩
          let (answer, remembering) := consulted.consult offer
          let recorded ← recordPlaces table answer.places
          .ok
            { table := recorded.table
              events := .consulted offer answer :: recorded.events ++
                if answer.recognized then [] else note
              extension := some remembering }

def dissect (dissector : Dissector) (frame : Bytes) (timestamp : UInt64)
    (captured wire : Nat) : Checked (Outcome DissectError Nat) :=
  match dissector.captured? frame captured wire with
  | .error error => .ok ⟨dissector, .error error, []⟩
  | .ok bytes => do
      let settings := dissector.settings
      let start := RecordTable.empty captured settings.defaultMask
      let found ← chain bytes (.ethernet settings.datalink) 0
      let progress ← recordLayers start .blank 0 found.items
      let ending := if progress.reached.isSome then found.verdict else .silent
      let conclusion ← conclude dissector.extension bytes progress.table
        (progress.reached.getD 0) ending
      .ok
        { dissector :=
            { dissector with
              extension := conclusion.extension
              phase := .holding
                ⟨timestamp, captured, wire, progress.summary, conclusion.table⟩ }
          result := .ok (if progress.table.records.isEmpty then 0 else captured)
          events := progress.events ++ conclusion.events }

/-- The layout of a packet. The lengths are narrowed to sixteen bits, the count of records to eight
and the hash to 24, and the slots that no record fills are counted. -/
def layout (order : ByteOrder) (metadata : Metadata) (packet : Packet) : Checked Bytes := do
  let captured ← fit 16 packet.capturedLength
  let wire ← fit 16 packet.wireLength
  let count ← fit 8 packet.table.size
  let hash ← fit 24 metadata.hash.toNat
  let free ← less RecordTable.capacity packet.table.size
  .ok (order.encode 8 packet.timestamp.toNat ++ order.encode 2 captured ++
    [metadata.rxPort, metadata.txPort] ++ order.encode 2 wire ++
    [metadata.txFlags.bits, packet.summary.link.code, metadata.hashType.code, count.toUInt8,
      packet.summary.fragment.bits] ++
    order.encode 3 hash ++ [packet.summary.network.code, packet.summary.transport.code] ++
    order.encode 8 packet.table.mask.toNat ++
    packet.table.records.flatMap (fun record =>
      order.encode Descriptor.slotSize record.encode.toNat) ++
    List.replicate (free * Descriptor.slotSize) 0)

def write (dissector : Dissector) (order : ByteOrder) (buffer : Bytes) :
    Checked (Except WriteError Bytes) :=
  match dissector.phase with
  | .idle _ => .ok (.error .noPacket)
  | .holding packet =>
      if buffer.has Descriptor.size then do
        let bytes ← layout order dissector.metadata packet
        .ok (.ok (bytes ++ buffer.drop Descriptor.size))
      else .ok (.error (.descriptor (.bufferTooSmall buffer.length)))

/-- Performs a command. Only dissecting and writing compute with offsets and lengths. -/
def perform (session : Session) : Command → Checked (Session × Reply)
  | .dissect frame timestamp captured wire => do
      let outcome ← dissect session.dissector frame timestamp captured wire
      let counters :=
        match outcome.result with
        | .error _ => session.counters
        | .ok result => session.counters.count captured result outcome.events
      .ok (⟨outcome.dissector, counters⟩, .dissected outcome.result outcome.events)
  | .write order buffer => do
      let written ← write session.dissector (order.getD session.dissector.settings.order) buffer
      .ok (session, .written written)
  | command => .ok (session.perform command)

theorem conclude_eq {table : RecordTable} (h : table.Regular) (extension : Option Extension)
    (captured : Bytes) (offset : Nat) (ending : Ending) :
    conclude extension captured table offset ending =
      .ok (Dissection.conclude extension captured table offset ending) := by
  cases ending with
  | silent => rfl
  | remark note => rfl
  | unclaimed hook =>
      cases extension with
      | none => rfl
      | some consulted =>
          rw [conclude]
          simp only [recordPlaces_eq h]
          rfl

theorem chain_near (expected : Expected) {rest : Bytes} (hrest : rest.length ≤ 65535) :
    ∀ layer ∈ (Dissection.chain expected rest).items, layer.Near := by
  refine (scans_scan chainStep_advances expected rest).forall_items_of_le ?_ hrest
  intro expected rest layer span next hlength hmove
  exact (chainStep_eq_take_iff.mp hmove).2.near hlength

theorem chain_marks_length_le (expected : Expected) (rest : Bytes) :
    ∀ layer ∈ (Dissection.chain expected rest).items, layer.marks.length ≤ 2 := by
  refine (scans_scan chainStep_advances expected rest).forall_items ?_
  intro expected rest layer span next hmove
  exact (chainStep_eq_take_iff.mp hmove).2.marks_length_le

theorem dissect_eq (dissector : Dissector) (frame : Bytes) (timestamp : UInt64)
    (captured wire : Nat) :
    dissect dissector frame timestamp captured wire =
      .ok (dissector.dissect frame timestamp captured wire) := by
  unfold dissect Dissector.dissect
  cases hcaptured : dissector.captured? frame captured wire with
  | error error => rfl
  | ok bytes =>
      obtain ⟨_, hlength, _, hframe, rfl⟩ := Dissector.captured?_eq_ok_iff.mp hcaptured
      have hbytes : (frame.take captured).length ≤ 65535 := by
        rw [List.length_take]
        omega
      have hregular : (RecordTable.empty captured dissector.settings.defaultMask).Regular :=
        ⟨Nat.zero_le _, hlength⟩
      have hblank : Summary.blank.Counts
          (3 * (RecordTable.empty captured dissector.settings.defaultMask).size) :=
        ⟨Nat.zero_le _, Nat.zero_le _⟩
      have hnestable : Nestable (.ethernet dissector.settings.datalink) := by
        intro depth hdepth
        cases hdepth
      dsimp only
      rw [chain_eq ⟨hbytes, Nat.zero_le _⟩ hnestable, ok_bind, List.drop_zero,
        recordLayers_eq hregular hblank (chain_near _ hbytes) (chain_marks_length_le _ _)
          (Nat.zero_le _), ok_bind,
        conclude_eq ((recordLayers_reaches _ _ _ _).regular hregular)]
      rfl

theorem layout_eq {metadata : Metadata} {packet : Packet} (order : ByteOrder)
    (hsize : packet.table.size ≤ RecordTable.capacity) (hcaptured : packet.capturedLength ≤ 65535)
    (hwire : packet.wireLength ≤ 65535) (hhash : metadata.hash.toNat < 2 ^ 24) :
    layout order metadata packet = .ok (Descriptor.encode order
      { timestamp := packet.timestamp
        capturedLength := packet.capturedLength.toUInt16
        wireLength := packet.wireLength.toUInt16
        metadata
        link := packet.summary.link
        network := packet.summary.network
        transport := packet.summary.transport
        fragment := packet.summary.fragment
        mask := packet.table.mask
        records := packet.table.records }) := by
  have hkept : packet.table.records.take RecordTable.capacity = packet.table.records :=
    List.take_of_length_le hsize
  have hslots := Descriptor.slots_length order packet.table.records
  have hcount : packet.table.size < 2 ^ 8 := Nat.lt_of_le_of_lt hsize (by decide)
  have hcast {length : Nat} (hlength : length ≤ 65535) : length.toUInt16.toNat = length := by
    simp only [Nat.toUInt16_eq, UInt16.toNat_ofNat']
    omega
  rw [layout, fit_eq (by omega), ok_bind, fit_eq (by omega), ok_bind, fit_eq hcount, ok_bind,
    fit_eq hhash, ok_bind, less_eq hsize, ok_bind]
  simp only [Descriptor.encode, Descriptor.encodeFields, Descriptor.encodeSlots, hkept, hslots,
    hcast hcaptured, hcast hwire, ← Nat.sub_mul, List.append_assoc]
  rfl

theorem write_eq {dissector : Dissector} {start : UInt64} (hsound : dissector.Sound start)
    (hnarrow : dissector.Narrow) (order : ByteOrder) (buffer : Bytes) :
    write dissector order buffer = .ok (dissector.write order buffer) := by
  obtain ⟨settings, extension, metadata, phase⟩ := dissector
  cases phase with
  | idle mask => rfl
  | holding packet =>
      unfold write Dissector.write
      simp only [Dissector.descriptor?, Descriptor.writeInto]
      cases buffer.has Descriptor.size with
      | false => rfl
      | true =>
          have hlayout := layout_eq order hsound.table.size_le
            (hsound.limit_eq ▸ hsound.limit_le) hnarrow.wire_le hnarrow.hash_lt
          simp only [Dissector.packet] at hlayout
          rw [if_pos rfl, if_pos rfl, hlayout]
          rfl

theorem perform_eq {session : Session} {start : UInt64} (hsound : session.dissector.Sound start)
    (hnarrow : session.dissector.Narrow) (command : Command) :
    perform session command = .ok (session.perform command) := by
  cases command with
  | dissect frame timestamp captured wire =>
      rw [perform, dissect_eq, ok_bind]
      rfl
  | write order buffer =>
      rw [perform, write_eq hsound hnarrow, ok_bind]
      rfl
  | _ => rfl

end Checked

namespace Session

/-- No arithmetic goes wrong. After any commands, each further one does what it does where all
arithmetic is checked: dissecting a frame, whatever its bytes and whatever places an extension asks
for, and writing a descriptor, which loses nothing of what it narrows. Nor does it go wrong to read
bytes, at any offset and of any width. -/
theorem run_checked (settings : Settings) (commands : List Command) (command : Command) :
    Checked.perform ((new settings).run commands) command =
        .ok (((new settings).run commands).perform command) ∧
      ∀ bytes : Bytes, bytes.length < 2 ^ 64 → ∀ offset count,
        Checked.slice bytes offset count = .ok (bytes.slice offset count) ∧
          Checked.readWord bytes count offset = .ok (bytes.readWord count offset) := by
  refine ⟨Checked.perform_eq (sound_run commands (Dissector.sound_new settings))
    (run_narrow settings commands) command, ?_⟩
  intro bytes hbytes offset count
  exact ⟨Checked.slice_eq hbytes offset count, Checked.readWord_eq hbytes count offset⟩

/-- An extension that asks for a record whose end is too wide for a word, and a hash with more
than 24 bits. -/
def greedyCommands : List Command :=
  [.setExtension (.ofFun fun _ _ => ⟨[⟨⟨0xFFFFFFFF⟩, 2 ^ 64 - 1, 2 ^ 64 - 1⟩], true⟩),
    .setHash 0xFFFFFFFF .tuple5]

/-- An Ethernet header of a type that nobody claims. -/
def unclaimedFrame : Bytes :=
  List.replicate 12 0 ++ [0x99, 0x99]

theorem checked_greedyCommands :
    let session := (new .default).run greedyCommands
    let command := Command.dissect unclaimedFrame 7 14 14
    (session.dissector.dissect unclaimedFrame 7 14 14).events.countP Event.isRefused = 1 ∧
      (session.dissector.dissect unclaimedFrame 7 14 14).result = .ok 14 ∧
      Checked.perform session command = .ok (session.perform command) ∧
      unclaimedFrame.length < 2 ^ 64 ∧
      Checked.readWord unclaimedFrame 2 (2 ^ 64 - 1) = .ok (.error .badOffset) := by
  intro session command
  have hlength : unclaimedFrame.length < 2 ^ 64 := by decide
  obtain ⟨hperform, hreads⟩ := run_checked .default greedyCommands command
  obtain ⟨_, hword⟩ := hreads unclaimedFrame hlength (2 ^ 64 - 1) 2
  exact ⟨by decide, by decide, hperform, hlength, hword⟩

end Session

end Dissection

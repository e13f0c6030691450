import Dissection.Dissector.Basic
import Dissection.Frame.Chain
import Dissection.Recording

namespace Dissection

/-- Why a packet is not dissected. -/
inductive DissectError where
  /-- The last packet was not followed by a reset. -/
  | notReset
  | capturedTooLong (captured : Nat)
  | wireTooLong (wire : Nat)
  | capturedBeyondBuffer (captured buffer : Nat)
  deriving DecidableEq, Repr

namespace DissectError

def message : DissectError → String
  | .notReset => "Dissector must be reset before the next packet"
  | .capturedTooLong captured =>
      s!"Invalid argument: captured length {captured} exceeds 65535"
  | .wireTooLong wire => s!"Invalid argument: wire length {wire} exceeds 65535"
  | .capturedBeyondBuffer captured buffer =>
      s!"Invalid argument: captured length {captured} exceeds buffer of {buffer} bytes"

def logLine : DissectError → LogLine
  | .notReset => ⟨.warn, "dissect called without reset"⟩
  | .capturedTooLong captured => ⟨.warn, s!"Captured length {captured} exceeds 65535"⟩
  | .wireTooLong wire => ⟨.warn, s!"Wire length {wire} exceeds 65535"⟩
  | .capturedBeyondBuffer captured buffer =>
      ⟨.warn, s!"Captured length {captured} exceeds buffer of {buffer}"⟩

end DissectError

/-- Why a descriptor is not written. -/
inductive WriteError where
  /-- No packet was dissected since the last reset. -/
  | noPacket
  | descriptor (error : DescriptorError)
  deriving DecidableEq, Repr

namespace WriteError

def message : WriteError → String
  | .noPacket => "No packet dissected since the last reset"
  | .descriptor error => error.message

/-- The warning that goes with an error, if one does. -/
def logLine? : WriteError → Option LogLine
  | .noPacket => none
  | .descriptor (.bufferTooSmall size) =>
      some ⟨.warn, s!"Descriptor buffer too small: {size} < {Descriptor.size}"⟩

end WriteError

/-- The note on bytes that nobody recognizes. None is made on the payload of a
datagram. -/
def Hook.note? : Hook → Option Note
  | .etherType value => some (.unknownEtherType value)
  | .ipNumber number => some (.unknownIpNumber number)
  | .ports _ _ => none

/-- Records places one after the other. One that is refused does not stop those
behind it. -/
def RecordTable.recordPlaces (table : RecordTable) : List Placement → Recorded
  | [] => ⟨table, []⟩
  | place :: rest =>
      match table.add? place with
      | none =>
          let behind := table.recordPlaces rest
          ⟨behind.table, table.refusal place :: behind.events⟩
      | some added =>
          let behind := added.recordPlaces rest
          ⟨behind.table, .added place table.size :: behind.events⟩

/-- The records of the captured bytes from an offset on, where a header is
expected, and the ending of the chain if nothing was refused on the way. -/
def recordChain (table : RecordTable) (summary : Summary) (captured : Bytes)
    (offset : Nat) (expected : Expected) : Progress × Ending :=
  let found := chain expected (captured.drop offset)
  let progress := recordLayers table summary offset found.items
  (progress, if progress.reached.isSome then found.verdict else .silent)

/-- A dissection that has been concluded. -/
structure Conclusion extends Recorded where
  extension : Option Extension

/-- Concludes a dissection at the offset that was reached, as its ending asks. -/
def conclude (extension : Option Extension) (captured : Bytes) (table : RecordTable)
    (offset : Nat) : Ending → Conclusion
  | .silent => ⟨⟨table, []⟩, extension⟩
  | .remark note => ⟨⟨table, [.noted offset note]⟩, extension⟩
  | .unclaimed hook =>
      let note := (hook.note?.map (.noted offset)).toList
      match extension with
      | none => ⟨⟨table, note⟩, none⟩
      | some consulted =>
          let offer : Offer := ⟨hook, captured, offset, table⟩
          let (answer, remembering) := consulted.consult offer
          let recorded := table.recordPlaces answer.places
          { table := recorded.table
            events := .consulted offer answer :: recorded.events ++
              if answer.recognized then [] else note
            extension := some remembering }

/-- What a call does to a dissector. -/
structure Outcome (ε α : Type) where
  dissector : Dissector
  result : Except ε α
  events : List Event

namespace Dissector

/-- The captured bytes of a frame, if a packet may be dissected now and its lengths
are possible. The checks are made in the order in which they stand here. -/
def captured? (dissector : Dissector) (frame : Bytes) (captured wire : Nat) :
    Except DissectError Bytes :=
  if !dissector.isIdle then .error .notReset
  else if 65535 < captured then .error (.capturedTooLong captured)
  else if 65535 < wire then .error (.wireTooLong wire)
  else if frame.has captured then .ok (frame.take captured)
  else .error (.capturedBeyondBuffer captured frame.length)

/-- Dissects the first `captured` bytes of a frame. It gives their count if at
least the Ethernet header was recorded, and zero otherwise. An error changes
nothing. -/
def dissect (dissector : Dissector) (frame : Bytes) (timestamp : UInt64)
    (captured wire : Nat) : Outcome DissectError Nat :=
  match dissector.captured? frame captured wire with
  | .error error => ⟨dissector, .error error, []⟩
  | .ok bytes =>
      let settings := dissector.settings
      let start := RecordTable.empty captured settings.defaultMask
      let (progress, ending) :=
        recordChain start .blank bytes 0 (.ethernet settings.datalink)
      let conclusion :=
        conclude dissector.extension bytes progress.table (progress.reached.getD 0) ending
      { dissector :=
          { dissector with
            extension := conclusion.extension
            phase := .holding
              ⟨timestamp, captured, wire, progress.summary, conclusion.table⟩ }
        result := .ok (if progress.table.records.isEmpty then 0 else captured)
        events := progress.events ++ conclusion.events }

/-- The descriptor of the packet at hand, if there is one. -/
def descriptor? (dissector : Dissector) : Option Descriptor :=
  match dissector.phase with
  | .idle _ => none
  | .holding packet =>
      some
        { timestamp := packet.timestamp
          capturedLength := packet.capturedLength.toUInt16
          wireLength := packet.wireLength.toUInt16
          metadata := dissector.metadata
          link := packet.summary.link
          network := packet.summary.network
          transport := packet.summary.transport
          fragment := packet.summary.fragment
          mask := packet.table.mask
          records := packet.table.records }

/-- Writes the descriptor of the packet at hand over the first bytes of a
buffer. -/
def write (dissector : Dissector) (order : ByteOrder) (buffer : Bytes) :
    Except WriteError Bytes :=
  match dissector.descriptor? with
  | none => .error .noPacket
  | some descriptor =>
      (descriptor.writeInto order buffer).mapError WriteError.descriptor

end Dissector

end Dissection

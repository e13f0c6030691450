import Dissection.Descriptor.Layout
import Dissection.Extension

namespace Dissection

/-- What a dissector is set to. -/
structure Settings where
  /-- The framing of the capture source. -/
  datalink : Datalink
  /-- The mask from which every packet starts. -/
  defaultMask : UInt64
  /-- The byte order of descriptors, where none is asked for. -/
  order : ByteOrder
  deriving DecidableEq, Repr

def Settings.default : Settings :=
  ⟨.ethernet, 0, .little⟩

/-- A packet that was dissected. -/
structure Packet where
  timestamp : UInt64
  capturedLength : Nat
  wireLength : Nat
  summary : Summary
  table : RecordTable
  deriving DecidableEq, Repr

/-- No packet, with the mask from which the next one was to start. -/
def Packet.blank (mask : UInt64) : Packet :=
  ⟨0, 0, 0, .blank, .empty 0 mask⟩

/-- Whether a dissector waits for a packet or holds one. -/
inductive Phase where
  /-- It waits; the mask is the default one of the last reset. -/
  | idle (mask : UInt64)
  | holding (packet : Packet)
  deriving DecidableEq, Repr

/-- A dissector of packets. -/
structure Dissector where
  settings : Settings
  extension : Option Extension
  metadata : Metadata
  phase : Phase

namespace Dissector

/-- A dissector with settings that waits for its first packet. -/
def new (settings : Settings) : Dissector :=
  ⟨settings, none, .blank, .idle settings.defaultMask⟩

def reset (dissector : Dissector) : Dissector :=
  { dissector with
    metadata := .blank
    phase := .idle dissector.settings.defaultMask }

def setDatalink (dissector : Dissector) (datalink : Datalink) : Dissector :=
  { dissector with settings := { dissector.settings with datalink } }

/-- Sets the mask from which the packets to come start. -/
def setDefaultMask (dissector : Dissector) (mask : UInt64) : Dissector :=
  { dissector with settings := { dissector.settings with defaultMask := mask } }

def setOrder (dissector : Dissector) (order : ByteOrder) : Dissector :=
  { dissector with settings := { dissector.settings with order } }

def setExtension (dissector : Dissector) (extension : Extension) : Dissector :=
  { dissector with extension := some extension }

def setPorts (dissector : Dissector) (rxPort txPort : UInt8) : Dissector :=
  { dissector with metadata := { dissector.metadata with rxPort, txPort } }

def setTxFlags (dissector : Dissector) (flags : TxFlags) : Dissector :=
  { dissector with metadata := { dissector.metadata with txFlags := flags } }

/-- Sets the hash of the packet, of which the low 24 bits are kept. -/
def setHash (dissector : Dissector) (hash : UInt32) (type : HashType) : Dissector :=
  { dissector with metadata := dissector.metadata.withHash hash type }

def packet (dissector : Dissector) : Packet :=
  match dissector.phase with
  | .idle mask => .blank mask
  | .holding packet => packet

def isIdle (dissector : Dissector) : Bool :=
  match dissector.phase with
  | .idle _ => true
  | .holding _ => false

def table (dissector : Dissector) : RecordTable :=
  dissector.packet.table

/-- The index and record of the `depth`-th record with an identifier. -/
def lookup (dissector : Dissector) (id : ProtocolId) (depth : Nat) :
    Option (Nat × Record) :=
  dissector.table.lookup id depth

end Dissector

end Dissection

import Dissection.Bytes.Order
import Dissection.Dissector.Metadata
import Dissection.Frame.Summary
import Dissection.Record.Table

/-!
Descriptors: what is known of a packet, in the form in which it is handed on. A descriptor is laid
out in 288 bytes:

    0 timestamp   8 captured length   10 receive port   11 transmit port
    12 wire length   14 transmit flags   15 link   16 kind of hash
    17 count of records   18 fragment bits   19 hash   22 network   23 transport
    24 mask   32 slots of eight bytes each

Words are laid out in either byte order, and slots without a record are zero.
Reading looks at nothing behind the layout.
-/

namespace Dissection

/-- What is known of a packet. -/
structure Descriptor where
  timestamp : UInt64
  capturedLength : UInt16
  wireLength : UInt16
  metadata : Metadata
  link : LinkType
  network : NetworkType
  transport : TransportType
  fragment : FragmentFlags
  /-- The core protocols seen, by ordinal. -/
  mask : UInt64
  records : List Record
  deriving DecidableEq, Repr

namespace Descriptor

def get? (descriptor : Descriptor) (slot : Nat) : Option Record :=
  descriptor.records[slot]?

/-- The slot and record of the `depth`-th record with an identifier. -/
def lookup (descriptor : Descriptor) (id : ProtocolId) (depth : Nat) :
    Option (Nat × Record) :=
  lookupRecord descriptor.records id depth

/-- The same in compact form, with the slot as the hint. -/
def lookupCompact (descriptor : Descriptor) (id : ProtocolId) (depth : Nat) :
    Option CompactRecord :=
  (descriptor.lookup id depth).map fun (slot, record) => record.compact slot.toUInt16

def slotSize : Nat := 8

def slotsOffset : Nat := 32

def size : Nat := slotsOffset + RecordTable.capacity * slotSize

end Descriptor

/-- Why a descriptor cannot be read from a buffer or written into it. -/
inductive DescriptorError where
  /-- The buffer holds fewer bytes than the layout. -/
  | bufferTooSmall (size : Nat)
  deriving DecidableEq, Repr

def DescriptorError.message : DescriptorError → String
  | .bufferTooSmall size =>
      s!"Descriptor needs {Descriptor.size} bytes, buffer has {size}"

namespace Descriptor

def encodeFields (order : ByteOrder) (descriptor : Descriptor) : Bytes :=
  order.encode 8 descriptor.timestamp.toNat ++
    order.encode 2 descriptor.capturedLength.toNat ++
    [descriptor.metadata.rxPort, descriptor.metadata.txPort] ++
    order.encode 2 descriptor.wireLength.toNat ++
    [descriptor.metadata.txFlags.bits, descriptor.link.code,
      descriptor.metadata.hashType.code, descriptor.records.length.toUInt8,
      descriptor.fragment.bits] ++
    order.encode 3 descriptor.metadata.hash.toNat ++
    [descriptor.network.code, descriptor.transport.code] ++
    order.encode 8 descriptor.mask.toNat

def encodeSlots (order : ByteOrder) (records : List Record) : Bytes :=
  let slots := (records.take RecordTable.capacity).flatMap fun record =>
    order.encode slotSize record.encode.toNat
  slots ++ List.replicate (RecordTable.capacity * slotSize - slots.length) 0

def encode (order : ByteOrder) (descriptor : Descriptor) : Bytes :=
  encodeFields order descriptor ++ encodeSlots order descriptor.records

/-- Writes a descriptor over the first bytes of a buffer. -/
def writeInto (order : ByteOrder) (descriptor : Descriptor) (buffer : Bytes) :
    Except DescriptorError Bytes :=
  if buffer.has size then .ok (encode order descriptor ++ buffer.drop size)
  else .error (.bufferTooSmall buffer.length)

def word (order : ByteOrder) (buffer : Bytes) (offset width : Nat) : Nat :=
  order.decode ((buffer.drop offset).take width)

def byte (buffer : Bytes) (offset : Nat) : UInt8 :=
  buffer[offset]?.getD 0

def slotRecord (order : ByteOrder) (buffer : Bytes) (slot : Nat) : Record :=
  .decode (word order buffer (slotsOffset + slot * slotSize) slotSize).toUInt64

/-- The count of records that the layout claims, at most one for each slot. -/
def recordCount (buffer : Bytes) : Nat :=
  min (byte buffer 17).toNat RecordTable.capacity

def decode (order : ByteOrder) (buffer : Bytes) : Descriptor where
  timestamp := (word order buffer 0 8).toUInt64
  capturedLength := (word order buffer 8 2).toUInt16
  wireLength := (word order buffer 12 2).toUInt16
  metadata :=
    { rxPort := byte buffer 10
      txPort := byte buffer 11
      txFlags := ⟨byte buffer 14⟩
      hash := (word order buffer 19 3).toUInt32
      hashType := .ofCode (byte buffer 16) }
  link := .ofCode (byte buffer 15)
  network := .ofCode (byte buffer 22)
  transport := .ofCode (byte buffer 23)
  fragment := ⟨byte buffer 18⟩
  mask := (word order buffer 24 8).toUInt64
  records := (List.range (recordCount buffer)).map (slotRecord order buffer)

/-- Reads a descriptor from the first bytes of a buffer. -/
def readFrom (order : ByteOrder) (buffer : Bytes) : Except DescriptorError Descriptor :=
  if buffer.has size then .ok (decode order (buffer.take size))
  else .error (.bufferTooSmall buffer.length)

end Descriptor

end Dissection

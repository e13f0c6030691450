import Dissection.Descriptor.Layout

namespace Dissection

/-- A header whose fields can be read. -/
inductive ReadableHeader where
  | ethernet
  | ipv4
  | ipv6
  | tcp
  | udp
  deriving DecidableEq, Repr

namespace ReadableHeader

def kind : ReadableHeader → HeaderKind
  | .ethernet => .ethernet
  | .ipv4 => .ipv4
  | .ipv6 => .ipv6
  | .tcp => .tcp
  | .udp => .udp

def leastLength : ReadableHeader → Nat
  | .ethernet => 14
  | .ipv4 => 20
  | .ipv6 => 40
  | .tcp => 20
  | .udp => 8

end ReadableHeader

/-- Why a header is not bound. -/
inductive BindError where
  /-- The record stands for something else, or there is none. -/
  | invalidProtocol
  /-- The record is too short for the header, or ends behind the frame. -/
  | invalidRead
  deriving DecidableEq, Repr

def BindError.message : BindError → String
  | .invalidProtocol => "Record does not describe this protocol"
  | .invalidRead => "Record does not fit the frame"

/-- A header with the bytes it spans. -/
structure Bound (header : ReadableHeader) where
  /-- Where the header begins in its frame. -/
  offset : Nat
  bytes : Bytes
  leastLength_le : header.leastLength ≤ bytes.length

namespace Bound

variable {header : ReadableHeader}

def span (frame : Bytes) (record : Record) : Bytes :=
  (frame.drop record.start).take record.size

theorem span_length {frame : Bytes} {record : Record}
    (h : record.stop ≤ frame.length) : (span frame record).length = record.size := by
  simp only [Record.stop] at h
  simp only [span, List.length_take, List.length_drop]
  omega

/-- Binds a header to the bytes of a frame that a record spans. -/
def bind (header : ReadableHeader) (frame : Bytes) (record : Record) :
    Except BindError (Bound header) :=
  if record.id ≠ header.kind.id then .error .invalidProtocol
  else if h : header.leastLength ≤ record.size ∧ record.stop ≤ frame.length then
    .ok ⟨record.start, span frame record, by rw [span_length h.2]; exact h.1⟩
  else .error .invalidRead

def length (bound : Bound header) : Nat :=
  bound.bytes.length

def stop (bound : Bound header) : Nat :=
  bound.offset + bound.length

def byte (bound : Bound header) (index : Nat) (h : index < header.leastLength) : UInt8 :=
  bound.bytes.get ⟨index, Nat.lt_of_lt_of_le h bound.leastLength_le⟩

def word8 (bound : Bound header) (index : Nat) (h : index < header.leastLength) : Nat :=
  (bound.byte index h).toNat

def word16 (bound : Bound header) (index : Nat) (h : index + 1 < header.leastLength) :
    Nat :=
  bound.word8 index (by omega) * 256 + bound.word8 (index + 1) h

def word32 (bound : Bound header) (index : Nat) (h : index + 3 < header.leastLength) :
    Nat :=
  bound.word16 index (by omega) * 65536 + bound.word16 (index + 2) (by omega)

def slice (bound : Bound header) (index count : Nat) : Bytes :=
  (bound.bytes.drop index).take count

def variablePart (bound : Bound header) : Bytes :=
  bound.bytes.drop header.leastLength

end Bound

/-- Binds the `depth`-th header of a kind among the records of a descriptor. -/
def Descriptor.bind (descriptor : Descriptor) (header : ReadableHeader) (frame : Bytes)
    (depth : Nat) : Except BindError (Bound header) :=
  match descriptor.lookup header.kind.id depth with
  | none => .error .invalidProtocol
  | some (_, record) => Bound.bind header frame record

end Dissection

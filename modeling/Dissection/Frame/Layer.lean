import Dissection.Bytes.Scan
import Dissection.Frame.Note
import Dissection.Frame.Summary
import Dissection.Protocol.HeaderKind

/-!
The layers of a frame. A frame is a chain of headers without gaps. Each layer is
one header of the chain, with the options it carries and, for an IPv6 header or a
listener report, the parts that trail it and are counted to its length. Nothing
here is tied to a place in the frame: a layer lies where the layers before it end.
-/

namespace Dissection

/-- What an entry among options turns out to be. -/
inductive Finding where
  | known (id : ProtocolId)
  | skipped (note : Note)
  deriving DecidableEq, Repr

/-- One of several entries that are laid end to end. -/
structure Entry where
  length : Nat
  finding : Finding
  deriving DecidableEq, Repr

/-- Entries laid end to end from `start` bytes into a header on. The verdict of
the scan is a note on the bytes at which it broke off, if they call for one. -/
structure Members where
  start : Nat
  run : Scanned Entry (Option Note)
  deriving DecidableEq, Repr

def Members.none : Members :=
  ⟨0, [], .none⟩

/-- A part that trails a header and is counted to its length. -/
structure Trailer where
  id : ProtocolId
  length : Nat
  members : Members
  /-- What a Fragment header says. -/
  fragment : Option Fragment
  deriving DecidableEq, Repr

/-- One header of a frame. -/
structure Layer where
  kind : HeaderKind
  /-- The count of IP headers in which the header is nested. -/
  depth : Nat
  /-- The length of the header without what trails it. -/
  length : Nat
  marks : List Mark
  members : Members
  /-- What trails the header, if it is of a kind that can be trailed. -/
  trailers : Option (List Trailer)
  deriving DecidableEq, Repr

namespace Layer

/-- A header that neither carries nor is trailed by anything. -/
def plain (kind : HeaderKind) (depth length : Nat) (marks : List Mark) : Layer :=
  ⟨kind, depth, length, marks, .none, none⟩

/-- The count of bytes from the start of a header to the end of what trails it. -/
def span (layer : Layer) : Nat :=
  layer.length + total Trailer.length (layer.trailers.getD [])

theorem span_pos {layer : Layer} (h : 0 < layer.length) : 0 < layer.span :=
  Nat.lt_of_lt_of_le h (Nat.le_add_right _ _)

@[simp] theorem span_plain (kind : HeaderKind) (depth length : Nat)
    (marks : List Mark) : (plain kind depth length marks).span = length := by
  simp [span, plain]

end Layer

/-- A question to whoever knows more protocols. -/
inductive Hook where
  | etherType (etherType : Nat)
  | ipNumber (number : Nat)
  | ports (source destination : Nat)
  deriving DecidableEq, Repr

/-- How the chain of headers ends. -/
inductive Ending where
  /-- It is complete, or the bytes that decide how it goes on were not captured. -/
  | silent
  /-- It breaks off, with a note on the bytes behind it. -/
  | remark (note : Note)
  /-- The bytes behind it are not recognized here. -/
  | unclaimed (hook : Hook)
  deriving DecidableEq, Repr

end Dissection

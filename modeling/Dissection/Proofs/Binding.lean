import Dissection.Header.Fields
import Dissection.Proofs.Completeness
import Dissection.Proofs.DepthLookup
import Dissection.Proofs.Location
import Dissection.Proofs.RoundTrip

namespace Dissection

open Bytes

namespace Bound

variable {header : ReadableHeader}

/-- A bound header spans a place of a frame. -/
structure Spans (bound : Bound header) (frame : Bytes) (place : Placement) : Prop where
  offset_eq : bound.offset = place.offset
  bytes_eq : bound.bytes = (frame.drop place.offset).take place.length
  length_eq : bound.length = place.length

/-- What is read of a bound header stands in the frame: each byte of its fixed part, each
slice up to its end, and what varies in length. -/
structure Reads (bound : Bound header) (frame : Bytes) : Prop where
  byte_eq : ∀ index h, frame[bound.offset + index]? = some (bound.byte index h)
  slice_eq : ∀ index count, index + count ≤ bound.length →
    (bound.slice index count).length = count ∧
      bound.slice index count = (frame.drop (bound.offset + index)).take count
  variablePart_eq : bound.variablePart =
    (frame.drop (bound.offset + header.leastLength)).take (bound.length - header.leastLength)

/-- What a bound header says of its version and length, where a header and its parts are
followed by the places behind it. -/
def Form : {header : ReadableHeader} → Bound header → List Placement → Prop
  | .ethernet, bound, _ => bound.length = 14
  | .ipv4, bound, _ =>
      Ipv4Header.version bound = 4 ∧ bound.length = 4 * Ipv4Header.headerWords bound ∧
        20 ≤ bound.length
  | .ipv6, bound, behind =>
      Ipv6Header.version bound = 6 ∧
        bound.length = 40 + total Placement.length
          ((behind.takeWhile fun place => !place.isCore).filter Placement.isExtension)
  | .tcp, bound, _ => bound.length = 4 * TcpHeader.dataOffset bound ∧ 20 ≤ bound.length
  | .udp, bound, _ => bound.length = 8

/-- A bound header agrees with the frame, in which it was recorded at a place, and with the
places recorded behind it. -/
structure Agrees (bound : Bound header) (frame : Bytes) (place : Placement)
    (behind : List Placement) : Prop where
  spans : bound.Spans frame place
  reads : bound.Reads frame
  form : bound.Form behind
  /-- It ends where the next header begins. -/
  stop_eq : ∀ {between others : List Placement} {next : Placement},
    behind = between ++ next :: others → (∀ place ∈ between, place.isCore = false) →
      next.isCore = true → bound.stop = next.offset

variable {bound : Bound header} {frame : Bytes} {place : Placement}

theorem Spans.reads (h : bound.Spans frame place) : bound.Reads frame := by
  have hlength : bound.bytes.length = place.length := h.length_eq
  refine ⟨?_, ?_, ?_⟩
  · intro index hindex
    have hlt : index < bound.bytes.length := Nat.lt_of_lt_of_le hindex bound.leastLength_le
    calc
      frame[bound.offset + index]? = ((frame.drop place.offset).take place.length)[index]? := by
        rw [List.getElem?_take_of_lt (hlength ▸ hlt), List.getElem?_drop, h.offset_eq]
      _ = bound.bytes[index]? := by rw [h.bytes_eq]
      _ = some (bound.byte index hindex) := List.getElem?_eq_getElem hlt
  · intro index count hcount
    rw [h.length_eq] at hcount
    refine ⟨?_, ?_⟩
    · rw [slice, List.length_take, List.length_drop, hlength]
      omega
    · rw [slice, h.bytes_eq, h.offset_eq, List.drop_take, List.drop_drop, List.take_take,
        Nat.min_eq_left (by omega)]
  · rw [variablePart, h.bytes_eq, h.offset_eq, h.length_eq, List.drop_take, List.drop_drop]

theorem Spans.word8_eq (h : bound.Spans frame place) {index value : Nat}
    (hindex : index < header.leastLength) (hvalue : u8? frame (place.offset + index) = some value) :
    bound.word8 index hindex = value := by
  rw [u8?, ← h.offset_eq, h.reads.byte_eq index hindex] at hvalue
  exact Option.some.inj hvalue

theorem bind_of_record {record : Record} (hid : record.id = header.kind.id)
    (hlength : header.leastLength ≤ record.size) (hstop : record.stop ≤ frame.length) :
    ∃ bound : Bound header, bind header frame record = .ok bound ∧
      bound.Spans frame record.place := by
  rw [bind, if_neg (not_not_intro hid), dif_pos ⟨hlength, hstop⟩]
  exact ⟨_, rfl, rfl, rfl, span_length hstop⟩

end Bound

section Form

variable {header : ReadableHeader} {frame bytes : Bytes} {captured start : Nat}
  {sole next : Expected} {layer : Layer}

theorem Finds.leastLength_le (h : Finds bytes sole layer next) (hexpects : header.Expects sole) :
    header.leastLength ≤ layer.length := by
  cases header with
  | ethernet =>
      obtain ⟨_, rfl⟩ := hexpects
      cases h <;> exact Nat.le_refl 14
  | ipv4 =>
      obtain ⟨_, rfl⟩ := hexpects
      cases h with
      | ipv4 _ _ hlength _ _ => exact hlength
  | ipv6 =>
      obtain ⟨_, rfl⟩ := hexpects
      cases h <;> exact Nat.le_refl 40
  | tcp =>
      obtain ⟨_, rfl⟩ := hexpects
      cases h with
      | tcp _ hlength => exact hlength
  | udp =>
      obtain ⟨_, rfl⟩ := hexpects
      cases h <;> exact Nat.le_refl 8

theorem Finds.form (h : Finds ((frame.take captured).drop start) sole layer next)
    (hexpects : header.Expects sole) {parts : List Piece} (hparts : parts <+: layer.parts start)
    {bound : Bound header}
    (hspans : bound.Spans frame ⟨layer.kind.id, start, layer.length + trailed parts⟩)
    {behind : List Placement}
    (hbehind : behind.takeWhile (fun place => !place.isCore) = parts.map Piece.place) :
    bound.Form behind := by
  have hlength := hspans.length_eq
  have hplain (hnone : layer.trailers = none) : bound.length = layer.length := by
    rw [hlength, layer.trailed_of_front hnone hparts, Nat.add_zero]
  cases header with
  | ethernet =>
      obtain ⟨_, rfl⟩ := hexpects
      cases h <;> exact hplain rfl
  | ipv4 =>
      obtain ⟨_, rfl⟩ := hexpects
      cases h with
      | ipv4 hbyte hversion hleast _ _ =>
          have hword := hspans.word8_eq (by decide) (u8?_of_captured hbyte)
          rw [Bound.Form, Ipv4Header.version, Ipv4Header.headerWords, hword, hplain rfl]
          exact ⟨hversion, Nat.mul_comm _ _, hleast⟩
  | ipv6 =>
      obtain ⟨_, rfl⟩ := hexpects
      -- The two ways in which an IPv6 header is found differ in what is expected behind it only.
      have htotal (hversion : Ipv6Header.version bound = 6) {code : Nat}
          (hfront : parts <+: trailerPieces (start + 40)
            (extensionTrailers code (((frame.take captured).drop start).drop 40)).items)
          (hforty : layer.length = 40) : bound.Form behind := by
        have htiled := (extensions_of_front (extensionTrailers_isExtension _ _) hfront).1
        rw [Bound.Form, hbehind, hlength, hforty]
        have := htiled.total_length
        exact ⟨hversion, by dsimp only; omega⟩
      cases h with
      | ipv6Cut hbyte hversion _ _ | ipv6 hbyte hversion _ _ =>
          have hword := hspans.word8_eq (by decide) (u8?_of_captured hbyte)
          refine htotal ?_ hparts rfl
          rw [Ipv6Header.version, hword, hversion]
  | tcp =>
      obtain ⟨_, rfl⟩ := hexpects
      cases h with
      | tcp hbyte hleast =>
          have hword := hspans.word8_eq (by decide) (u8?_of_captured hbyte)
          rw [Bound.Form, TcpHeader.dataOffset, hword, hplain rfl]
          exact ⟨Nat.mul_comm _ _, hleast⟩
  | udp =>
      obtain ⟨_, rfl⟩ := hexpects
      cases h <;> exact hplain rfl

end Form

/-- The places of the records of a descriptor. -/
def Descriptor.places (descriptor : Descriptor) : List Placement :=
  descriptor.records.map Record.place

namespace Session

end Session

end Dissection

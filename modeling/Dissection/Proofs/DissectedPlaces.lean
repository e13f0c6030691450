import Dissection.Proofs.LayerShape
import Dissection.Proofs.SessionInvariant

namespace Dissection

theorem Trailer.IsExtension.within {trailer : Trailer} (h : trailer.IsExtension) :
    trailer.members.Within trailer.length := by
  obtain ⟨header, _, hmembers⟩ := h.header
  split at hmembers
  · exact hmembers.2
  · rw [hmembers]
    exact Members.within_none _

theorem Trailer.IsAddressRecord.within {trailer : Trailer} (h : trailer.IsAddressRecord) :
    trailer.members.Within trailer.length := by
  rw [h.members]
  exact Members.within_none _

theorem Layer.Shaped.closed {layer : Layer} (h : layer.Shaped) : layer.Closed := by
  rcases h.cases with ⟨hnone, _⟩ | ⟨hnone, _⟩ | ⟨hmembers, trailers, htrailers, hall⟩
  · exact ⟨.inl hnone, hnone ▸ List.forall_mem_nil _⟩
  · exact ⟨.inl hnone, hnone ▸ List.forall_mem_nil _⟩
  · refine ⟨.inr (hmembers ▸ Members.within_none _), ?_⟩
    rw [htrailers]
    intro trailer htrailer
    rcases hall trailer htrailer with hextension | hrecord
    · exact hextension.within
    · exact hrecord.within

theorem Scans.closedChain {expected : Expected} {rest : Bytes}
    {found : Scanned Layer Ending} (h : Scans chainStep .silent expected rest found) :
    ClosedChain found.items := by
  induction h with
  | stop _ => trivial
  | last hmove _ =>
      obtain ⟨_, hfinds⟩ := chainStep_eq_take_iff.mp hmove
      exact ⟨hfinds.shaped.closed, .inl rfl, trivial⟩
  | take hmove _ hbehind ih =>
      obtain ⟨_, hfinds⟩ := chainStep_eq_take_iff.mp hmove
      refine ⟨hfinds.shaped.closed, ?_, ih⟩
      rcases hfinds.within with hwithin | ⟨ending, rfl⟩
      · exact .inr hwithin
      · exact .inl hbehind.items_eq_nil_of_nothing

theorem chain_closed (expected : Expected) (rest : Bytes) :
    ClosedChain (chain expected rest).items :=
  (scans_scan chainStep_advances expected rest).closedChain

theorem scans_frameChain (datalink : Datalink) (captured : Bytes) :
    Scans chainStep .silent (.ethernet datalink) captured (frameChain datalink captured) :=
  scans_scan chainStep_advances _ _

/-- The pieces that the layers of a frame ask for. -/
def framePieces (datalink : Datalink) (captured : Bytes) : List Piece :=
  layerPieces 0 (frameChain datalink captured).items

theorem conclude_none (captured : Bytes) (table : RecordTable) (offset : Nat)
    (ending : Ending) : (conclude none captured table offset ending).table = table := by
  cases ending <;> rfl

namespace Dissector

theorem captured?_of_dissect {dissector : Dissector} {frame : Bytes}
    {timestamp : UInt64} {captured wire count : Nat}
    (h : (dissector.dissect frame timestamp captured wire).result = .ok count) :
    captured ≤ frame.length ∧
      dissector.captured? frame captured wire = .ok (frame.take captured) := by
  rcases dissector.dissect_cases frame timestamp captured wire with
    ⟨error, _, hresult⟩ | ⟨bytes, hbytes, _⟩
  · rw [hresult] at h
    cases h
  · obtain ⟨_, _, _, hlength, rfl⟩ := captured?_eq_ok_iff.mp hbytes
    exact ⟨hlength, hbytes⟩

/-- The layers of a packet, recorded into an empty table. -/
def recorded (dissector : Dissector) (bytes : Bytes) (captured : Nat) : Progress :=
  recordLayers (.empty captured dissector.settings.defaultMask) .blank 0
    (frameChain dissector.settings.datalink bytes).items

theorem packet_dissect {dissector : Dissector} {frame bytes : Bytes} {captured wire : Nat}
    (timestamp : UInt64) (hextension : dissector.extension = none)
    (h : dissector.captured? frame captured wire = .ok bytes) :
    (dissector.dissect frame timestamp captured wire).dissector.packet =
      ⟨timestamp, captured, wire, (dissector.recorded bytes captured).summary,
        (dissector.recorded bytes captured).table⟩ := by
  simp only [dissect, h, hextension, packet, conclude_none]
  rfl

theorem regular_empty {captured : Nat} (mask : UInt64) (h : captured ≤ 65535) :
    (RecordTable.empty captured mask).Regular :=
  ⟨Nat.zero_le _, h⟩

theorem places_recorded (dissector : Dissector) (bytes : Bytes) {captured : Nat}
    (h : captured ≤ 65535) :
    (dissector.recorded bytes captured).table.places =
      widened (accepted RecordTable.capacity captured
        (framePieces dissector.settings.datalink bytes)) := by
  have hregular := regular_empty dissector.settings.defaultMask h
  have htakes := takes_recordLayers hregular .blank 0
    (chain_closed (.ethernet dissector.settings.datalink) bytes)
  exact htakes.places_eq

/-- Without an extension, the records of a packet are what is recorded of it. -/
theorem places_dissect {dissector : Dissector} {frame bytes : Bytes} {captured wire : Nat}
    (timestamp : UInt64) (hextension : dissector.extension = none)
    (h : dissector.captured? frame captured wire = .ok bytes) :
    (dissector.dissect frame timestamp captured wire).dissector.table.places =
      widened (accepted RecordTable.capacity captured
        (framePieces dissector.settings.datalink bytes)) := by
  rw [table, packet_dissect timestamp hextension h]
  exact places_recorded dissector bytes (captured?_eq_ok_iff.mp h).2.1

end Dissector

end Dissection

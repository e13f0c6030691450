import Dissection.Proofs.CutChain
import Dissection.Proofs.Geometry

/-!
Truncation. A packet of which fewer bytes were captured shows nothing that the
packet with more of them does not show (`truncation_dissect`).
-/

namespace Dissection

/-- What a record is to the one in its place when more bytes were captured: only the
length that trailers are counted to may have grown. -/
structure Placement.Curtails (place whole : Placement) : Prop where
  id_eq : place.id = whole.id
  offset_eq : place.offset = whole.offset
  length_le : place.length ≤ whole.length
  length_eq : place.id ≠ HeaderKind.ipv6.id → place.id ≠ HeaderKind.icmp6ListenerReport.id →
    place.length = whole.length

/-- What a record table is to the one for which more bytes were captured. -/
structure RecordTable.Curtails (table whole : RecordTable) : Prop where
  size_le : table.size ≤ whole.size
  records : ∀ (index : Nat) (record other : Record), table.records[index]? = some record →
    whole.records[index]? = some other → record.place.Curtails other.place
  /-- No protocol is seen that is not seen in the other. -/
  mask_or : table.mask ||| whole.mask = whole.mask

/-- What a packet is to the packet of which more bytes were captured. -/
structure Packet.Curtails (packet whole : Packet) : Prop where
  table : packet.table.Curtails whole.table
  tally : packet.summary.tally.Grows whole.summary.tally

theorem trailed_le_of_front {front pieces : List Piece} (h : front <+: pieces) :
    trailed front ≤ trailed pieces := by
  induction front generalizing pieces with
  | nil => exact Nat.zero_le _
  | cons piece front ih =>
      cases pieces with
      | nil => cases List.prefix_nil.mp h
      | cons other pieces =>
          obtain ⟨rfl, hfront⟩ := List.cons_prefix_cons.mp h
          obtain ⟨role, place⟩ := piece
          cases role with
          | header => exact Nat.le_refl 0
          | trailer => exact Nat.add_le_add_left (ih hfront) place.length
          | member =>
              show trailed front ≤ trailed pieces
              exact ih hfront

/-- Only the headers that can be trailed are. -/
def TrailedWell : List Piece → Prop
  | [] => True
  | ⟨.header, place⟩ :: rest =>
      (place.id = HeaderKind.ipv6.id ∨ place.id = HeaderKind.icmp6ListenerReport.id ∨
        trailed rest = 0) ∧ TrailedWell rest
  | ⟨_, _⟩ :: rest => TrailedWell rest

theorem trailedWell_append {parts behind : List Piece}
    (h : ∀ piece ∈ parts, piece.role ≠ .header) (hbehind : TrailedWell behind) :
    TrailedWell (parts ++ behind) := by
  induction parts with
  | nil => exact hbehind
  | cons piece parts ih =>
      rw [List.forall_mem_cons] at h
      obtain ⟨role, place⟩ := piece
      cases role with
      | header => exact absurd rfl h.1
      | trailer => exact ih h.2
      | member => exact ih h.2

theorem trailed_layerPieces (offset : Nat) (layers : List Layer) :
    trailed (layerPieces offset layers) = 0 := by
  cases layers <;> rfl

theorem Layer.Shaped.trailed_eq_zero {layer : Layer} (h : layer.Shaped)
    (hipv6 : layer.kind ≠ .ipv6) (hreport : layer.kind ≠ .icmp6ListenerReport) (offset : Nat) :
    trailed (layer.parts offset) = 0 := by
  have hform := h.form
  have hnone : layer.trailers = none := by
    unfold Layer.Form at hform
    split at hform
    case h_3 hkind => exact absurd hkind hipv6
    case h_4 hkind => exact absurd hkind hreport
    all_goals exact hform.1
  rw [Layer.parts_eq_members hnone]
  exact trailed_map_member (role_of_front (List.prefix_refl _))

theorem trailedWell_layerPieces {layers : List Layer} (offset : Nat)
    (h : ∀ layer ∈ layers, layer.Shaped) : TrailedWell (layerPieces offset layers) := by
  induction layers generalizing offset with
  | nil => trivial
  | cons layer rest ih =>
      rw [List.forall_mem_cons] at h
      have hrole : ∀ piece ∈ layer.parts offset, piece.role ≠ .header :=
        fun piece hpiece => Layer.role_of_mem_parts hpiece
      refine ⟨?_, trailedWell_append hrole (ih _ h.2)⟩
      dsimp only
      rw [HeaderKind.id_inj, HeaderKind.id_inj]
      by_cases hipv6 : layer.kind = .ipv6
      · exact .inl hipv6
      · by_cases hreport : layer.kind = .icmp6ListenerReport
        · exact .inr (.inl hreport)
        · refine .inr (.inr ?_)
          show trailed (layer.parts offset ++ layerPieces (offset + layer.span) rest) = 0
          rw [trailed_append hrole, trailed_layerPieces, Nat.add_zero]
          exact h.1.trailed_eq_zero hipv6 hreport offset

theorem trailedWell_of_front {front pieces : List Piece} (h : front <+: pieces)
    (hwell : TrailedWell pieces) : TrailedWell front := by
  induction front generalizing pieces with
  | nil => trivial
  | cons piece front ih =>
      cases pieces with
      | nil => cases List.prefix_nil.mp h
      | cons other pieces =>
          obtain ⟨rfl, hfront⟩ := List.cons_prefix_cons.mp h
          obtain ⟨role, place⟩ := piece
          cases role with
          | header =>
              obtain ⟨hplace, hrest⟩ := hwell
              refine ⟨?_, ih hfront hrest⟩
              refine hplace.imp_right fun hplace => hplace.imp_right fun hzero => ?_
              exact Nat.eq_zero_of_le_zero (hzero ▸ trailed_le_of_front hfront)
          | trailer => exact ih hfront hwell
          | member => exact ih hfront hwell

theorem widened_curtails {front pieces : List Piece} (h : front <+: pieces)
    (hwell : TrailedWell pieces) {index : Nat} {place whole : Placement}
    (hplace : (widened front)[index]? = some place)
    (hwhole : (widened pieces)[index]? = some whole) : place.Curtails whole := by
  induction front generalizing pieces index with
  | nil => cases hplace
  | cons piece front ih =>
      cases pieces with
      | nil => cases List.prefix_nil.mp h
      | cons other pieces =>
          obtain ⟨rfl, hfront⟩ := List.cons_prefix_cons.mp h
          have hle := trailed_le_of_front hfront
          obtain ⟨role, header⟩ := piece
          cases role with
          | header =>
              obtain ⟨hheader, hrest⟩ := hwell
              cases index with
              | succ index => exact ih hfront hrest hplace hwhole
              | zero =>
                  cases hplace
                  cases hwhole
                  refine ⟨rfl, rfl, Nat.add_le_add_left hle _, ?_⟩
                  intro hipv6 hreport
                  have hzero := (hheader.resolve_left hipv6).resolve_left hreport
                  show header.length + trailed front = header.length + trailed pieces
                  omega
          | trailer =>
              cases index with
              | succ index => exact ih hfront hwell hplace hwhole
              | zero =>
                  cases hplace
                  cases hwhole
                  exact ⟨rfl, rfl, Nat.le_refl _, fun _ _ => rfl⟩
          | member =>
              cases index with
              | succ index => exact ih hfront hwell hplace hwhole
              | zero =>
                  cases hplace
                  cases hwhole
                  exact ⟨rfl, rfl, Nat.le_refl _, fun _ _ => rfl⟩

theorem seenMask_or {records others : List Record}
    (h : records.map Record.id <+: others.map Record.id) :
    seenMask records ||| seenMask others = seenMask others := by
  have hids : records.map Record.id = (others.take records.length).map Record.id := by
    have htake := List.prefix_iff_eq_take.mp h
    rw [List.length_map] at htake
    rw [htake, List.map_take]
  have hothers : seenMask others =
      seenMask records ||| seenMask (others.drop records.length) := by
    rw [seenMask_congr hids, ← seenMask_append, List.take_append_drop]
  rw [hothers, ← UInt64.or_assoc, UInt64.or_self]

theorem RecordTable.curtails_of_front {table whole : RecordTable} {start : UInt64}
    {front pieces : List Piece} (hsound : table.Sound start) (hother : whole.Sound start)
    (hplaces : table.places = widened front) (hwhole : whole.places = widened pieces)
    (hfront : front <+: pieces) (hwell : TrailedWell pieces) : table.Curtails whole := by
  refine ⟨?_, ?_, ?_⟩
  · rw [size_eq_length_places, size_eq_length_places, hplaces, hwhole, widened_length,
      widened_length]
    exact hfront.length_le
  · intro index record other hrecord hother
    apply widened_curtails hfront hwell
    · rw [← hplaces, places, List.getElem?_map, hrecord]
      rfl
    · rw [← hwhole, places, List.getElem?_map, hother]
      rfl
  · have hids : table.records.map Record.id <+: whole.records.map Record.id := by
      rw [← map_id_places, ← map_id_places, hplaces, hwhole, widened_map fun _ _ => rfl,
        widened_map fun _ _ => rfl]
      exact hfront.map _
    calc
      table.mask ||| whole.mask =
          (start ||| seenMask table.records) ||| (start ||| seenMask whole.records) := by
        rw [hsound.mask_eq, hother.mask_eq]
      _ = start ||| (seenMask table.records ||| seenMask whole.records) := by
        rw [UInt64.or_assoc, ← UInt64.or_assoc _ start, UInt64.or_comm _ start,
          UInt64.or_assoc, ← UInt64.or_assoc start start, UInt64.or_self]
      _ = whole.mask := by
        rw [seenMask_or hids, hother.mask_eq]

theorem headers_le_of_front {front pieces : List Piece} (h : front <+: pieces) :
    headers front ≤ headers pieces :=
  h.countP_le

namespace Dissector

variable {dissector : Dissector} {frame bytes : Bytes} {captured wire : Nat}

theorem tally_recorded (dissector : Dissector) (bytes : Bytes) (hcaptured : captured ≤ 65535) :
    (dissector.recorded bytes captured).summary.tally =
      Summary.blank.tally.addAll
        (((frameChain dissector.settings.datalink bytes).items.map Layer.outline).take
          (headers (accepted RecordTable.capacity captured
            (framePieces dissector.settings.datalink bytes)))) := by
  refine tally_recordLayers (regular_empty _ hcaptured) .blank 0 (chain_closed _ bytes) ?_
  refine (scans_scan chainStep_advances _ bytes).forall_items ?_
  intro expected rest layer span next hmove
  exact (chainStep_eq_take_iff.mp hmove).2.marked

theorem tally_recorded_grows (dissector : Dissector) (bytes : Bytes) {few many : Nat}
    (hle : few ≤ many) (hmany : many ≤ 65535) :
    (dissector.recorded (bytes.take few) few).summary.tally.Grows
      (dissector.recorded bytes many).summary.tally := by
  have houtline := (chain_curtails (.ethernet dissector.settings.datalink) bytes few).outline
  have haccepted := headers_le_of_front
    (accepted_framePieces_front dissector.settings.datalink bytes RecordTable.capacity hle)
  rw [tally_recorded dissector _ (hle.trans hmany), tally_recorded dissector bytes hmany]
  rw [frameChain, List.prefix_iff_eq_take.mp houtline, List.take_take]
  refine (scans_scan chainStep_advances _ bytes).grows ⟨.inl rfl, .inl rfl⟩ ?_
  exact (Nat.min_le_left _ _).trans haccepted

/-- Of two captures of one frame, the packet of the shorter one shows nothing that the
packet of the longer one does not. -/
theorem truncation_dissect {timestamp later : UInt64} {few many wireFew wireMany : Nat}
    {resultFew resultMany : Nat} (hextension : dissector.extension = none) (hle : few ≤ many)
    (hfew : (dissector.dissect frame timestamp few wireFew).result = .ok resultFew)
    (hmany : (dissector.dissect frame later many wireMany).result = .ok resultMany) :
    (dissector.dissect frame timestamp few wireFew).dissector.packet.Curtails
      (dissector.dissect frame later many wireMany).dissector.packet := by
  obtain ⟨_, hcapturedFew⟩ := captured?_of_dissect hfew
  obtain ⟨_, hcapturedMany⟩ := captured?_of_dissect hmany
  have hlimit : many ≤ 65535 := (captured?_eq_ok_iff.mp hcapturedMany).2.1
  have htake : frame.take few = (frame.take many).take few := by
    rw [List.take_take, Nat.min_eq_left hle]
  rw [htake] at hcapturedFew
  have haccepted := accepted_framePieces_front dissector.settings.datalink (frame.take many)
    RecordTable.capacity hle
  have hshaped := chain_shaped (.ethernet dissector.settings.datalink) (frame.take many)
  have hwell := trailedWell_of_front (accepted_front RecordTable.capacity many _)
    (trailedWell_layerPieces 0 hshaped)
  constructor
  · exact RecordTable.curtails_of_front (sound_dissect timestamp hcapturedFew).table
      (sound_dissect later hcapturedMany).table
      (places_dissect timestamp hextension hcapturedFew)
      (places_dissect later hextension hcapturedMany) haccepted hwell
  · rw [packet_dissect timestamp hextension hcapturedFew,
      packet_dissect later hextension hcapturedMany]
    exact tally_recorded_grows dissector (frame.take many) hle hlimit

theorem curtails_hopByHopFrame :
    ((new .default).dissect hopByHopFrame 0 58 70).dissector.table.places =
        [⟨HeaderKind.ethernet.id, 0, 14⟩, ⟨HeaderKind.ipv6.id, 14, 40⟩] ∧
      ((new .default).dissect hopByHopFrame 0 58 70).dissector.packet.Curtails
        ((new .default).dissect hopByHopFrame 0 70 70).dissector.packet := by
  have hfew : ((new .default).dissect hopByHopFrame 0 58 70).result = .ok 58 := by decide
  have hmany : ((new .default).dissect hopByHopFrame 0 70 70).result = .ok 70 := by decide
  exact ⟨by decide, truncation_dissect rfl (by decide) hfew hmany⟩

end Dissector

end Dissection

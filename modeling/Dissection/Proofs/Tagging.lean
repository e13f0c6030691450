import Dissection.Proofs.Geometry
import Dissection.Proofs.Position
import Dissection.Proofs.Showing

namespace Dissection

open Bytes

/-- A VLAN tag: the type that announces it, and what it says. -/
def tag (type : Nat) (control : UInt16) : Bytes :=
  ByteOrder.big.encode 2 type ++ ByteOrder.big.encode 2 control.toNat

/-- The frame with a tag behind its addresses. -/
def tagged (type : Nat) (control : UInt16) (frame : Bytes) : Bytes :=
  frame.take 12 ++ (tag type control ++ frame.drop 12)

section Bytes

variable {frame : Bytes} (type : Nat) (control : UInt16)

@[simp] theorem length_tag : (tag type control).length = 4 := by
  simp [tag]

theorem length_tagged (frame : Bytes) :
    (tagged type control frame).length = frame.length + 4 := by
  simp only [tagged, List.length_append, List.length_take, List.length_drop, length_tag]
  omega

theorem tagged_take (h : 12 ≤ frame.length) {count : Nat} (hcount : 12 ≤ count) :
    (tagged type control frame).take (count + 4) = tagged type control (frame.take count) := by
  have hlength : (frame.take 12).length = 12 := List.length_take_of_le h
  have haddresses : (frame.take 12).take (count + 4) = (frame.take count).take 12 := by
    rw [List.take_take, List.take_take, Nat.min_eq_left hcount,
      Nat.min_eq_right (Nat.le_add_right_of_le hcount)]
  have htag : (tag type control).take (count + 4 - 12) = tag type control :=
    List.take_of_length_le (by rw [length_tag]; omega)
  have hpayload : (frame.drop 12).take (count + 4 - 12 - 4) = (frame.take count).drop 12 := by
    rw [List.drop_take, show count + 4 - 12 - 4 = count - 12 by omega]
  rw [tagged, List.take_append, List.take_append, hlength, length_tag, haddresses, htag,
    hpayload, tagged]

theorem drop_tagged (h : 12 ≤ frame.length) :
    (tagged type control frame).drop 12 = tag type control ++ frame.drop 12 :=
  List.drop_left' (List.length_take_of_le h)

theorem drop_tagged_add (h : 12 ≤ frame.length) (distance : Nat) :
    (tagged type control frame).drop (16 + distance) = frame.drop (12 + distance) := by
  rw [show 16 + distance = 12 + (4 + distance) by omega, ← List.drop_drop, drop_tagged _ _ h,
    ← List.drop_drop, List.drop_left' (length_tag type control), List.drop_drop]

theorem u16?_encode {value : Nat} (h : value < 65536) (behind : Bytes) :
    u16? (ByteOrder.big.encode 2 value ++ behind) 0 = some value := by
  show some ((value / 256).toUInt8.toNat * 256 + value.toUInt8.toNat) = some value
  simp only [Nat.toUInt8_eq, UInt8.toNat_ofNat', Option.some.injEq]
  omega

theorem u16?_tagged_type (h : 12 ≤ frame.length) {type : Nat} (htype : type < 65536) :
    u16? (tagged type control frame) 12 = some type := by
  rw [← Nat.add_zero 12, ← u16?_drop, drop_tagged type control h, tag, List.append_assoc,
    u16?_encode htype]

theorem u16?_tagged_field (h : 12 ≤ frame.length) :
    u16? ((tagged type control frame).drop 14) 2 = u16? frame 12 := by
  rw [u16?_drop, ← Nat.add_zero (14 + 2), ← u16?_drop]
  exact (congrArg (u16? · 0) (drop_tagged_add type control h 0)).trans (u16?_drop frame 12 0)

end Bytes

section Chains

theorem frameChain_items {bytes : Bytes} (hlength : 14 ≤ bytes.length) {field : Nat}
    (hfield : u16? bytes 12 = some field) :
    (frameChain .ethernet bytes).items =
      .plain .ethernet 0 14 (framingMarks field (bytes.drop 14)) ::
        (chain (.ofTypeField field) (bytes.drop 14)).items := by
  rw [frameChain, chain_eq, (Finds.ethernet hfield).chainStep_eq, Layer.then]
  dsimp only
  rw [Layer.span_plain, if_pos ((has_eq_true_iff bytes 14).mpr hlength)]
  rfl

theorem chain_vlan_items {rest : Bytes} (hlength : 4 ≤ rest.length) {field : Nat}
    (hfield : u16? rest 2 = some field) :
    (chain .vlan rest).items =
      .plain .vlan 0 4 (.vlan :: novellMarks field (rest.drop 4)) ::
        (chain (.ofTypeField field) (rest.drop 4)).items := by
  rw [chain_eq, (Finds.vlan hfield).chainStep_eq, Layer.then]
  dsimp only
  rw [Layer.span_plain, if_pos ((has_eq_true_iff rest 4).mpr hlength)]
  rfl

theorem least_le_of_isTag {type : Nat} (h : EtherType.isTag type = true) :
    EtherType.least ≤ type ∧ type < 65536 := by
  simp only [EtherType.isTag, Bool.or_eq_true, decide_eq_true_eq] at h
  rcases h with (rfl | rfl) | rfl <;> decide

/-- The chain of a tagged frame is that of the frame, but for its first header and the
tag. -/
theorem frameChain_tagged {bytes : Bytes} (hlength : 14 ≤ bytes.length) {field type : Nat}
    (hfield : u16? bytes 12 = some field) (htype : EtherType.isTag type = true)
    (control : UInt16) :
    (frameChain .ethernet (tagged type control bytes)).items =
      .plain .ethernet 0 14 [.link .ether] ::
        .plain .vlan 0 4 (.vlan :: novellMarks field (bytes.drop 14)) ::
          (chain (.ofTypeField field) (bytes.drop 14)).items := by
  have htwelve : 12 ≤ bytes.length := by omega
  obtain ⟨hleast, hword⟩ := least_le_of_isTag htype
  have hlong := length_tagged type control bytes
  have hdrop : ((tagged type control bytes).drop 14).drop 4 = bytes.drop 14 := by
    rw [List.drop_drop]
    exact drop_tagged_add type control htwelve 2
  rw [frameChain_items (by omega) (u16?_tagged_type control htwelve hword), framingMarks,
    if_pos hleast, Expected.ofTypeField, if_pos htype,
    chain_vlan_items (by rw [List.length_drop]; omega)
      ((u16?_tagged_field type control htwelve).trans hfield), hdrop]

end Chains

section Pieces

variable (offset depth length count : Nat) (kind : HeaderKind) (marks : List Mark)
  (rest : List Layer)

theorem layerPieces_plain :
    layerPieces offset (.plain kind depth length marks :: rest) =
      ⟨.header, kind.id, offset, length⟩ :: layerPieces (offset + length) rest := by
  rw [layerPieces, Layer.span_plain]
  rfl

theorem shown_plain :
    shown (.plain kind 0 length marks :: rest) (count + 1) = marks ++ shown rest count := by
  have hsize : (Layer.plain kind 0 length marks).size = 1 := rfl
  rw [shown, hsize, Nat.min_eq_right (Nat.le_add_left 1 count), Nat.add_sub_cancel]
  exact congrArg (· ++ _) (List.append_nil marks)

theorem accepted_of_length_le {room limit : Nat} {pieces : List Piece}
    (h : (accepted (room + 1) limit pieces).length ≤ room) :
    accepted (room + 1) limit pieces = accepted room limit pieces := by
  rw [← List.take_of_length_le h, accepted, accepted, List.take_take,
    Nat.min_eq_left (Nat.le_succ room)]

end Pieces

section Summaries

theorem Finds.link_unknown_not_mem {expected next : Expected} {rest : Bytes} {layer : Layer}
    (h : Finds rest expected layer next) : .link .unknown ∉ layer.marks := by
  have hnovell (field : Nat) (payload : Bytes) :
      .link .unknown ∉ novellMarks field payload := by
    unfold novellMarks
    split <;> decide
  induction h with
  | ethernet _ =>
      show .link .unknown ∉ framingMarks _ _
      unfold framingMarks
      split
      · decide
      · exact hnovell _ _
  | vlan _ => exact List.not_mem_cons_of_ne_of_not_mem (by decide) (hnovell _ _)
  | ipv4 _ _ _ _ _ => simp
  | labelledIpv4 _ _ _ ih | labelledIpv6 _ _ _ ih | quotedIpv4 _ _ _ ih
  | quotedIpv6 _ _ _ ih => exact ih
  | _ => simp [Layer.plain]

theorem mem_shown {layers : List Layer} {count : Nat} {mark : Mark}
    (h : mark ∈ shown layers count) :
    (∃ layer ∈ layers, mark ∈ layer.marks) ∨ ∃ fragment, mark = .fragment fragment := by
  induction layers generalizing count with
  | nil => cases h
  | cons layer rest ih =>
      rw [shown, List.mem_append] at h
      rcases h with h | h
      · unfold Layer.shown Layer.facts at h
        split at h
        · cases h
        · split at h
          · rcases List.mem_append.mp h with h | h
            · exact .inl ⟨layer, List.mem_cons_self, h⟩
            · rw [Option.mem_toList, Option.map_eq_some_iff] at h
              obtain ⟨fragment, _, heq⟩ := h
              exact .inr ⟨fragment, heq.symm⟩
          · cases h
      · rcases ih h with ⟨other, hother, hmark⟩ | hfragment
        · exact .inl ⟨other, List.mem_cons_of_mem layer hother, hmark⟩
        · exact .inr hfragment

theorem chain_link_unknown_not_mem (expected : Expected) (rest : Bytes) (count : Nat) :
    .link .unknown ∉ shown (chain expected rest).items count := by
  have hlayers : ∀ layer ∈ (chain expected rest).items, .link .unknown ∉ layer.marks := by
    refine (scans_scan chainStep_advances expected rest).forall_items ?_
    intro _ _ _ _ _ hmove
    exact (chainStep_eq_take_iff.mp hmove).2.link_unknown_not_mem
  intro h
  rcases mem_shown h with ⟨layer, hlayer, hmark⟩ | ⟨fragment, heq⟩
  · exact hlayers layer hlayer hmark
  · cases heq

/-- One summary is another with a tag more, by which the frame is one of Ethernet II where
nothing else is known of its framing. -/
structure Summary.Tagged (summary plain : Summary) : Prop where
  link_eq : summary.link = if plain.link = .unknown then .ether else plain.link
  network_eq : summary.network = plain.network
  transport_eq : summary.transport = plain.transport
  vlans_eq : summary.vlans = plain.vlans + 1
  labels_eq : summary.labels = plain.labels
  fragment_eq : summary.fragment = plain.fragment

namespace Summary.Tagged

variable {summary plain : Summary}

theorem add (h : summary.Tagged plain) {mark : Mark} (hmark : mark ≠ .link .unknown) :
    (summary.add mark).Tagged (plain.add mark) := by
  obtain ⟨hlink, hnetwork, htransport, hvlans, hlabels, hfragment⟩ := h
  cases mark with
  | link type =>
      refine ⟨?_, hnetwork, htransport, hvlans, hlabels, hfragment⟩
      have htype : type ≠ .unknown := fun heq => hmark (heq ▸ rfl)
      exact (if_neg htype).symm
  | network type => exact ⟨hlink, rfl, htransport, hvlans, hlabels, hfragment⟩
  | transport type => exact ⟨hlink, hnetwork, rfl, hvlans, hlabels, hfragment⟩
  | vlan => exact ⟨hlink, hnetwork, htransport, congrArg (· + 1) hvlans, hlabels, hfragment⟩
  | mpls => exact ⟨hlink, hnetwork, htransport, hvlans, congrArg (· + 1) hlabels, hfragment⟩
  | fragment fragment =>
      exact ⟨hlink, hnetwork, htransport, hvlans, hlabels, congrArg (·.add fragment) hfragment⟩

theorem addAll (h : summary.Tagged plain) {marks : List Mark}
    (hmarks : .link .unknown ∉ marks) :
    (summary.addAll marks).Tagged (plain.addAll marks) := by
  induction marks generalizing summary plain with
  | nil => exact h
  | cons mark rest ih =>
      rw [List.mem_cons, not_or] at hmarks
      exact ih (h.add fun heq => hmarks.1 heq.symm) hmarks.2

end Summary.Tagged

theorem tagged_framingMarks (field : Nat) (payload : Bytes) :
    (Summary.blank.addAll (.link .ether :: .vlan :: novellMarks field payload)).Tagged
      (Summary.blank.addAll (framingMarks field payload)) := by
  unfold framingMarks
  split
  · rename_i hleast
    rw [novellMarks, if_neg fun hnovell => absurd hnovell.1 (Nat.not_lt_of_le hleast)]
    constructor <;> rfl
  · unfold novellMarks
    split <;> constructor <;> rfl

end Summaries

section Masks

theorem seenMask_insert {records others : List Record} {first id : ProtocolId}
    {ids : List ProtocolId} (h : records.map Record.id = first :: ids)
    (hothers : others.map Record.id = first :: id :: ids) :
    seenMask others = seenMask records ||| id.maskBit := by
  obtain ⟨head, behind, rfl, rfl, hbehind⟩ := List.map_eq_cons_iff.mp h
  obtain ⟨otherHead, otherTail, rfl, hhead, htail⟩ := List.map_eq_cons_iff.mp hothers
  obtain ⟨inserted, otherBehind, rfl, rfl, hotherBehind⟩ := List.map_eq_cons_iff.mp htail
  rw [seenMask_cons, seenMask_cons, seenMask_cons, hhead,
    seenMask_congr (hotherBehind.trans hbehind.symm), UInt64.or_comm inserted.id.maskBit,
    UInt64.or_assoc]

theorem RecordTable.Sound.mask_insert {start : UInt64} {table other : RecordTable}
    (h : table.Sound start) (hother : other.Sound start) {first inserted : Placement}
    {places : List Placement} {distance : Nat} (hplaces : table.places = first :: places)
    (hotherPlaces : other.places =
      first :: inserted :: places.map (Placement.shift distance)) :
    other.mask = table.mask ||| inserted.id.maskBit := by
  have hids : table.records.map Record.id = first.id :: places.map Placement.id := by
    rw [← table.map_id_places, hplaces, List.map_cons]
  have hotherIds : other.records.map Record.id =
      first.id :: inserted.id :: places.map Placement.id := by
    rw [← other.map_id_places, hotherPlaces, List.map_cons, List.map_cons, List.map_map]
    rfl
  calc other.mask
      = start ||| seenMask other.records := hother.mask_eq
    _ = start ||| (seenMask table.records ||| inserted.id.maskBit) := by
        rw [seenMask_insert hids hotherIds]
    _ = table.mask ||| inserted.id.maskBit := by rw [h.mask_eq, UInt64.or_assoc]

end Masks

/-- One packet shows what another does, with a tag more behind its Ethernet header and
what was there behind the tag. -/
structure Packet.Tagged (packet plain : Packet) : Prop where
  places_eq : packet.table.places =
    ⟨HeaderKind.ethernet.id, 0, 14⟩ :: ⟨HeaderKind.vlan.id, 14, 4⟩ ::
      plain.table.places.tail.map (Placement.shift 4)
  mask_eq : packet.table.mask = plain.table.mask ||| HeaderKind.vlan.id.maskBit
  summary : packet.summary.Tagged plain.summary

theorem widened_cons_front (place : Placement) {behind : List Piece} {offset : Nat}
    {layers : List Layer} (h : behind <+: layerPieces offset layers) :
    widened (⟨.header, place⟩ :: behind) = place :: widened behind :=
  widened_append_front [⟨.header, place⟩] h

section Layers

variable {limit : Nat} {layers : List Layer} {framing otherFraming marks : List Mark}

theorem accepted_tagged (hlimit : 14 ≤ limit)
    (hroom : (accepted RecordTable.capacity limit
      (layerPieces 0 (.plain .ethernet 0 14 framing :: layers))).length ≤ 31) :
    ∃ behind, behind <+: layerPieces 14 layers ∧
      accepted RecordTable.capacity limit
          (layerPieces 0 (.plain .ethernet 0 14 framing :: layers)) =
        ⟨.header, HeaderKind.ethernet.id, 0, 14⟩ :: behind ∧
      accepted RecordTable.capacity (limit + 4)
          (layerPieces 0 (.plain .ethernet 0 14 otherFraming :: .plain .vlan 0 4 marks :: layers)) =
        ⟨.header, HeaderKind.ethernet.id, 0, 14⟩ :: ⟨.header, HeaderKind.vlan.id, 14, 4⟩ ::
          behind.map (Piece.shift 4) := by
  have hfirst : accepted RecordTable.capacity limit
      (layerPieces 0 (.plain .ethernet 0 14 framing :: layers)) =
        ⟨.header, HeaderKind.ethernet.id, 0, 14⟩ ::
          accepted 31 limit (layerPieces 14 layers) := by
    rw [layerPieces_plain]
    exact accepted_cons_of_le hlimit
  have hsecond (pieces : List Piece) : accepted RecordTable.capacity (limit + 4)
      (⟨.header, HeaderKind.ethernet.id, 0, 14⟩ :: ⟨.header, HeaderKind.vlan.id, 14, 4⟩ ::
        pieces) =
        ⟨.header, HeaderKind.ethernet.id, 0, 14⟩ :: ⟨.header, HeaderKind.vlan.id, 14, 4⟩ ::
          accepted 30 (limit + 4) pieces := by
    refine (accepted_cons_of_le (Nat.le_add_right_of_le hlimit)).trans ?_
    exact congrArg _ (accepted_cons_of_le (Nat.add_le_add_right hlimit 4))
  rw [hfirst, List.length_cons, Nat.add_le_add_iff_right] at hroom
  refine ⟨_, accepted_front _ _ _, hfirst, ?_⟩
  rw [accepted_of_length_le hroom, layerPieces_plain, layerPieces_plain, Nat.zero_add, hsecond,
    layerPieces_shift 14 4, accepted_shift]

theorem widened_tagged (hlimit : 14 ≤ limit)
    (hroom : (accepted RecordTable.capacity limit
      (layerPieces 0 (.plain .ethernet 0 14 framing :: layers))).length ≤ 31) :
    ∃ places,
      widened (accepted RecordTable.capacity limit
          (layerPieces 0 (.plain .ethernet 0 14 framing :: layers))) =
        ⟨HeaderKind.ethernet.id, 0, 14⟩ :: places ∧
      widened (accepted RecordTable.capacity (limit + 4)
          (layerPieces 0
            (.plain .ethernet 0 14 otherFraming :: .plain .vlan 0 4 marks :: layers))) =
        ⟨HeaderKind.ethernet.id, 0, 14⟩ :: ⟨HeaderKind.vlan.id, 14, 4⟩ ::
          places.map (Placement.shift 4) := by
  obtain ⟨behind, hbehind, hplain, hdeeper⟩ := accepted_tagged hlimit hroom
  have hshifted : behind.map (Piece.shift 4) <+: layerPieces 18 layers :=
    layerPieces_shift 14 4 layers ▸ hbehind.map _
  refine ⟨widened behind, ?_, ?_⟩
  · rw [hplain, widened_cons_front _ hbehind]
  · rw [hdeeper, ← List.singleton_append, widened_append_header, widened_cons_front _ hshifted,
      widened_shift]
    rfl

theorem addAll_shown_tagged (hlimit : 14 ≤ limit) {field : Nat} {payload : Bytes}
    (hroom : (accepted RecordTable.capacity limit (layerPieces 0
      (.plain .ethernet 0 14 (framingMarks field payload) :: layers))).length ≤ 31)
    (hlink : ∀ count, .link .unknown ∉ shown layers count) :
    let plain : List Layer := .plain .ethernet 0 14 (framingMarks field payload) :: layers
    let deeper : List Layer := .plain .ethernet 0 14 [.link .ether] ::
      .plain .vlan 0 4 (.vlan :: novellMarks field payload) :: layers
    (Summary.blank.addAll (shown deeper
        (accepted RecordTable.capacity (limit + 4) (layerPieces 0 deeper)).length)).Tagged
      (Summary.blank.addAll (shown plain
        (accepted RecordTable.capacity limit (layerPieces 0 plain)).length)) := by
  intro plain deeper
  obtain ⟨behind, _, hplain, hdeeper⟩ := accepted_tagged hlimit hroom
  rw [hplain, hdeeper, List.length_cons, List.length_cons, List.length_cons, List.length_map,
    shown_plain, shown_plain, shown_plain, ← List.append_assoc, Summary.addAll_append,
    Summary.addAll_append _ (framingMarks field payload)]
  exact (tagged_framingMarks field payload).addAll (hlink _)

end Layers

namespace Dissector

theorem captured?_tagged {dissector : Dissector} {frame bytes : Bytes}
    {captured wire otherWire : Nat} (type : Nat) (control : UInt16) (haddresses : 12 ≤ captured)
    (hcaptured : captured + 4 ≤ 65535) (hwire : otherWire ≤ 65535)
    (h : dissector.captured? frame captured wire = .ok bytes) :
    dissector.captured? (tagged type control frame) (captured + 4) otherWire =
      .ok (tagged type control bytes) := by
  obtain ⟨hidle, _, _, hframe, rfl⟩ := captured?_eq_ok_iff.mp h
  refine captured?_eq_ok_iff.mpr ⟨hidle, hcaptured, hwire, ?_, ?_⟩
  · rw [length_tagged]
    omega
  · exact (tagged_take type control (haddresses.trans hframe) haddresses).symm

theorem summary_recorded (dissector : Dissector) (bytes : Bytes) {captured : Nat}
    (h : captured ≤ 65535) :
    (dissector.recorded bytes captured).summary =
      Summary.blank.addAll (shown (frameChain dissector.settings.datalink bytes).items
        (accepted RecordTable.capacity captured
          (framePieces dissector.settings.datalink bytes)).length) :=
  summary_recordLayers (regular_empty dissector.settings.defaultMask h) .blank 0
    (chain_closed (.ethernet dissector.settings.datalink) bytes)

/-- A frame that leaves room for one record more, with a tag more: the tag is recorded
behind the Ethernet header, and what was recorded there is recorded behind the tag. Nothing
else changes but the count of tags, the bit of tags in the mask, and a framing that was
unknown. -/
theorem tagged_dissect {dissector : Dissector} {frame : Bytes} {timestamp : UInt64}
    {captured wire count : Nat} (hextension : dissector.extension = none)
    (hdatalink : dissector.settings.datalink = .ethernet) (hethernet : 14 ≤ captured)
    (hcaptured : captured + 4 ≤ 65535) {type : Nat} (htype : EtherType.isTag type = true)
    (h : (dissector.dissect frame timestamp captured wire).result = .ok count)
    (hroom : (dissector.dissect frame timestamp captured wire).dissector.table.size ≤ 31)
    (control : UInt16) (otherTimestamp : UInt64) {otherWire : Nat} (hwire : otherWire ≤ 65535) :
    let plain := dissector.dissect frame timestamp captured wire
    let deeper := dissector.dissect (tagged type control frame) otherTimestamp (captured + 4)
      otherWire
    deeper.result = .ok (captured + 4) ∧
      deeper.dissector.packet.Tagged plain.dissector.packet := by
  obtain ⟨hframe, hplain⟩ := captured?_of_dissect h
  have hlimit : captured ≤ 65535 := (captured?_eq_ok_iff.mp hplain).2.1
  have hlength : (frame.take captured).length = captured := List.length_take_of_le hframe
  have hdeeper := captured?_tagged type control (by omega) hcaptured hwire hplain
  intro plain deeper
  have hplainPlaces : plain.dissector.table.places = _ :=
    places_dissect timestamp hextension hplain
  have hdeeperPlaces : deeper.dissector.table.places = _ :=
    places_dissect otherTimestamp hextension hdeeper
  have hplainSound := sound_dissect timestamp hplain
  have hdeeperSound := sound_dissect otherTimestamp hdeeper
  generalize frame.take captured = bytes at *
  obtain ⟨field, hfield⟩ := exists_u16? bytes 12 (by omega)
  have hitems := frameChain_items (hlength ▸ hethernet) hfield
  have htagged := frameChain_tagged (hlength ▸ hethernet) hfield htype control
  have hlink := chain_link_unknown_not_mem (.ofTypeField field) (bytes.drop 14)
  generalize (chain (.ofTypeField field) (bytes.drop 14)).items = layers at *
  rw [RecordTable.size_eq_length_places, hplainPlaces, widened_length] at hroom
  rw [hdatalink, framePieces, hitems] at hplainPlaces hroom
  rw [hdatalink, framePieces, htagged] at hdeeperPlaces
  obtain ⟨places, hplaces, hmore⟩ := widened_tagged hethernet hroom
  rw [hplaces] at hplainPlaces
  rw [hmore] at hdeeperPlaces
  have hmask := hplainSound.table.mask_insert hdeeperSound.table hplainPlaces hdeeperPlaces
  refine ⟨?_, ?_, ?_, ?_⟩
  · exact (result_dissect otherTimestamp hdeeper).trans (by rw [if_pos (by omega)])
  · show deeper.dissector.table.places = _ :: _ :: plain.dissector.table.places.tail.map _
    rw [hdeeperPlaces, hplainPlaces, List.tail_cons]
  · exact hmask
  · have hplainSummary : plain.dissector.packet.summary = _ :=
      (congrArg Packet.summary (packet_dissect timestamp hextension hplain)).trans
        (dissector.summary_recorded bytes hlimit)
    have hdeeperSummary : deeper.dissector.packet.summary = _ :=
      (congrArg Packet.summary (packet_dissect otherTimestamp hextension hdeeper)).trans
        (dissector.summary_recorded (tagged type control bytes) hcaptured)
    rw [hplainSummary, hdeeperSummary, hdatalink, framePieces, framePieces, hitems, htagged]
    exact addAll_shown_tagged hethernet hroom hlink

theorem tagged_hopByHopFrame :
    let plain := (new .default).dissect hopByHopFrame 0 70 70
    let deeper := (new .default).dissect (tagged 0x88A8 0xA005 hopByHopFrame) 0 74 74
    plain.result = .ok 70 ∧ plain.dissector.table.size = 5 ∧ deeper.result = .ok 74 ∧
      deeper.dissector.table.places =
        [⟨HeaderKind.ethernet.id, 0, 14⟩, ⟨HeaderKind.vlan.id, 14, 4⟩,
          ⟨HeaderKind.ipv6.id, 18, 48⟩, ⟨ExtensionHeader.hopByHop.id, 58, 8⟩,
          ⟨HopByHopOption.padN.id, 60, 6⟩, ⟨HeaderKind.udp.id, 66, 8⟩] ∧
      deeper.dissector.packet.Tagged plain.dissector.packet := by
  intro plain deeper
  have hresult : plain.result = .ok 70 := by decide
  have hsize : plain.dissector.table.size = 5 := by decide
  have hplaces : plain.dissector.table.places.tail =
      [⟨HeaderKind.ipv6.id, 14, 48⟩, ⟨ExtensionHeader.hopByHop.id, 54, 8⟩,
        ⟨HopByHopOption.padN.id, 56, 6⟩, ⟨HeaderKind.udp.id, 62, 8⟩] := by decide
  obtain ⟨hdeeper, htagged⟩ := tagged_dissect rfl rfl (by decide) (by decide)
    (by decide : EtherType.isTag 0x88A8 = true) hresult (hsize ▸ by decide) 0xA005 0
    (by decide : 74 ≤ 65535)
  refine ⟨hresult, hsize, hdeeper, ?_, htagged⟩
  refine htagged.places_eq.trans ?_
  rw [show plain.dissector.packet.table.places.tail = _ from hplaces]
  rfl

end Dissector

end Dissection

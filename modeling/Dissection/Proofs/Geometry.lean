import Dissection.Proofs.Arrangement
import Dissection.Proofs.DissectedPlaces

/-!
The geometry of a record table. The headers of a packet lie end to end from its
first byte on, and every other record lies where the nearest header before it has
room for it (`geometry_dissect`).
-/

namespace Dissection

theorem ExtensionHeader.id_inj {header other : ExtensionHeader}
    (h : header.id = other.id) : header = other := by
  revert h
  cases header <;> cases other <;> decide

namespace ProtocolId

/-- Whether the identifier is that of an extension header. -/
def isExtension (id : ProtocolId) : Bool :=
  ExtensionHeader.all.any fun header => header.id == id

theorem isExtension_id (header : ExtensionHeader) : header.id.isExtension = true := by
  cases header <;> decide

theorem isCore_extension (header : ExtensionHeader) : header.id.isCore = false := by
  cases header <;> decide

theorem IsHopByHopOption.isExtension_eq {id : ProtocolId} (h : id.IsHopByHopOption) :
    id.isExtension = false := by
  obtain ⟨option, rfl⟩ := h
  cases option <;> decide

theorem IsHopByHopOption.isCore_eq {id : ProtocolId} (h : id.IsHopByHopOption) :
    id.isCore = false := by
  obtain ⟨option, rfl⟩ := h
  cases option <;> decide

theorem IsIpv4Option.isCore_eq {id : ProtocolId} (h : id.IsIpv4Option) :
    id.isCore = false := by
  obtain ⟨option, rfl⟩ := h
  cases option <;> decide

theorem IsTcpOption.isCore_eq {id : ProtocolId} (h : id.IsTcpOption) :
    id.isCore = false := by
  obtain ⟨option, rfl⟩ := h
  cases option <;> decide

theorem IsNdOption.isCore_eq {id : ProtocolId} (h : id.IsNdOption) : id.isCore = false := by
  obtain ⟨option, rfl⟩ := h
  cases option <;> decide

theorem IsHeaderOption.isCore_eq {id : ProtocolId} (h : id.IsHeaderOption) :
    id.isCore = false := by
  rcases h with hipv4 | htcp | hnd
  · exact hipv4.isCore_eq
  · exact htcp.isCore_eq
  · exact hnd.isCore_eq

theorem IsAddressRecord.isCore_eq {id : ProtocolId} (h : id.IsAddressRecord) :
    id.isCore = false := by
  obtain ⟨record, rfl⟩ := h
  cases record <;> decide

end ProtocolId

/-- Whether the place is that of a header. -/
def Placement.isCore (place : Placement) : Bool :=
  place.id.isCore

/-- Whether the place is that of an extension header. -/
def Placement.isExtension (place : Placement) : Bool :=
  place.id.isExtension

/-- What an extension header owns: a Hop-by-Hop header its options, any other header
nothing. -/
structure OwnedByExtension (header : Placement) (owned : List Placement) : Prop where
  hopByHop : header.id = ExtensionHeader.hopByHop.id →
    (∀ place ∈ owned, place.id.IsHopByHopOption) ∧ Apart (header.offset + 2) header.stop owned
  other : header.id ≠ ExtensionHeader.hopByHop.id → owned = []

/-- What a header of a kind owns, in a capture of `limit` bytes. -/
def HeaderKind.Owns (limit : Nat) (kind : HeaderKind) (header : Placement)
    (owned : List Placement) : Prop :=
  match kind with
  | .ipv4 =>
      (∀ place ∈ owned, place.id.IsIpv4Option) ∧ Apart (header.offset + 20) header.stop owned
  | .tcp =>
      (∀ place ∈ owned, place.id.IsTcpOption) ∧ Apart (header.offset + 20) header.stop owned
  | .ipv6 =>
      Tiled (header.offset + 40) header.stop (owned.filter Placement.isExtension) ∧
        Grouped Placement.isExtension OwnedByExtension owned
  | .icmp6ListenerReport =>
      (∀ place ∈ owned, place.id.IsAddressRecord) ∧
        Tiled (header.offset + 8) header.stop owned
  | .icmp6RouterSolicitation | .icmp6RouterAdvertisement | .icmp6NeighborSolicitation
  | .icmp6NeighborAdvertisement =>
      (∀ place ∈ owned, place.id.IsNdOption) ∧ Apart header.stop limit owned
  | _ => owned = []

/-- What the header at a place owns. -/
def Owned (limit : Nat) (header : Placement) (owned : List Placement) : Prop :=
  ∃ kind : HeaderKind, header.id = kind.id ∧ kind.Owns limit header owned

/-- How the places of a packet of `limit` captured bytes lie. -/
structure Geometry (limit : Nat) (places : List Placement) : Prop where
  /-- The offsets rise in the order of recording. -/
  increasing : places.Pairwise fun place next => place.offset < next.offset
  /-- The first header is Ethernet. -/
  first : (places.filter Placement.isCore).head? = some ⟨HeaderKind.ethernet.id, 0, 14⟩
  /-- Every header begins where the one before it ends. -/
  gapless : ∃ stop, Tiled 0 stop (places.filter Placement.isCore)
  /-- Every other record belongs to the nearest header before it. -/
  grouped : Grouped Placement.isCore (Owned limit) places

section Parts

variable {front : List Piece} {offset limit : Nat}

theorem owned_of_carries {members : Members} {start stop : Nat}
    {family : ProtocolId → Prop} (h : members.Carries start family)
    (hfront : front <+: members.pieces offset)
    (hstop : ∀ piece ∈ front, piece.place.stop ≤ stop) :
    (∀ place ∈ front.map Piece.place, family place.id) ∧
      Apart (offset + start) stop (front.map Piece.place) := by
  have hapart := (apart_entryPieces (offset + members.start) members.run.items).sublist
    (hfront.sublist.map Piece.place)
  refine ⟨?_, ?_, hapart.ordered⟩
  · intro place hplace
    obtain ⟨piece, hpiece, rfl⟩ := List.mem_map.mp hplace
    obtain ⟨entry, hentry, hknown⟩ := mem_entryPieces_known (hfront.subset hpiece)
    exact h.known entry hentry _ hknown
  · intro place hplace
    refine ⟨h.start_eq ▸ (hapart.within place hplace).1, ?_⟩
    obtain ⟨piece, hpiece, rfl⟩ := List.mem_map.mp hplace
    exact hstop piece hpiece

theorem owned_of_within {members : Members} {start length : Nat}
    {family : ProtocolId → Prop} (h : members.Carries start family)
    (hwithin : members.Within length) (hfront : front <+: members.pieces offset) :
    (∀ place ∈ front.map Piece.place, family place.id) ∧
      Apart (offset + start) (offset + length) (front.map Piece.place) :=
  owned_of_carries h hfront fun _ hpiece =>
    Members.stop_le_of_mem_pieces hwithin (hfront.subset hpiece)

theorem front_eq_nil {members : Members} (h : members = .none)
    (hfront : front <+: members.pieces offset) : front = [] := by
  subst h
  exact List.prefix_nil.mp hfront

theorem Trailer.IsExtension.isExtension_place {trailer : Trailer} (h : trailer.IsExtension)
    (offset : Nat) :
    (⟨trailer.id, offset, trailer.length⟩ : Placement).isExtension = true := by
  obtain ⟨header, hid, _⟩ := h.header
  rw [Placement.isExtension, hid, ProtocolId.isExtension_id]

theorem Trailer.IsExtension.owned {trailer : Trailer} (h : trailer.IsExtension)
    (hfront : front <+: trailer.members.pieces offset) :
    (∀ place ∈ front.map Piece.place, place.isExtension = false) ∧
      OwnedByExtension ⟨trailer.id, offset, trailer.length⟩ (front.map Piece.place) := by
  obtain ⟨_, header, hid, hmembers⟩ := h
  split at hmembers
  · rename_i hheader
    subst hheader
    obtain ⟨hcarries, hwithin⟩ := hmembers
    have howned := owned_of_within hcarries hwithin hfront
    refine ⟨fun place hplace => (howned.1 place hplace).isExtension_eq, fun _ => howned, ?_⟩
    intro hother
    exact absurd hid hother
  · rename_i hheader
    rw [front_eq_nil hmembers hfront]
    refine ⟨List.forall_mem_nil _, ?_, fun _ => rfl⟩
    intro heq
    exact absurd (ExtensionHeader.id_inj (hid.symm.trans heq)) hheader

theorem extensions_of_front {trailers : List Trailer}
    (h : ∀ trailer ∈ trailers, trailer.IsExtension)
    (hfront : front <+: trailerPieces offset trailers) :
    Tiled offset (offset + trailed front)
        ((front.map Piece.place).filter Placement.isExtension) ∧
      Grouped Placement.isExtension OwnedByExtension (front.map Piece.place) := by
  induction trailers generalizing offset front with
  | nil =>
      rw [List.prefix_nil.mp hfront]
      exact ⟨rfl, .nil⟩
  | cons trailer rest ih =>
      rw [List.forall_mem_cons] at h
      cases front with
      | nil => exact ⟨rfl, .nil⟩
      | cons piece behind =>
          obtain ⟨rfl, hbehind⟩ := List.cons_prefix_cons.mp hfront
          obtain ⟨members, others, rfl, hmembers, hothers, _⟩ := prefix_append_split hbehind
          obtain ⟨htiled, hgrouped⟩ := ih h.2 hothers
          obtain ⟨hplain, howned⟩ := h.1.owned hmembers
          have hextension := h.1.isExtension_place offset
          have hmember := role_of_front hmembers
          have htrailed : trailed (members ++ others) = trailed others := by
            rw [trailed_append, trailed_map_member hmember, Nat.zero_add]
            intro piece hpiece
            simp [hmember piece hpiece]
          rw [List.map_cons, List.map_append]
          refine ⟨?_, .group hextension hplain howned hgrouped⟩
          rw [filter_group hextension hplain, trailed, htrailed, ← Nat.add_assoc]
          exact ⟨rfl, htiled⟩

theorem addressRecords_of_front {trailers : List Trailer}
    (h : ∀ trailer ∈ trailers, trailer.IsAddressRecord)
    (hfront : front <+: trailerPieces offset trailers) :
    (∀ place ∈ front.map Piece.place, place.id.IsAddressRecord) ∧
      Tiled offset (offset + trailed front) (front.map Piece.place) := by
  induction trailers generalizing offset front with
  | nil =>
      rw [List.prefix_nil.mp hfront]
      exact ⟨List.forall_mem_nil _, rfl⟩
  | cons trailer rest ih =>
      rw [List.forall_mem_cons] at h
      cases front with
      | nil => exact ⟨List.forall_mem_nil _, rfl⟩
      | cons piece behind =>
          obtain ⟨rfl, hbehind⟩ := List.cons_prefix_cons.mp hfront
          rw [h.1.members] at hbehind
          obtain ⟨hrecords, htiled⟩ := ih h.2 hbehind
          rw [List.map_cons]
          refine ⟨?_, rfl, ?_⟩
          · rw [List.forall_mem_cons]
            exact ⟨h.1.id, hrecords⟩
          · rw [trailed, ← Nat.add_assoc]
            exact htiled

/-- None of the entries is a header. -/
def Members.NotCore (members : Members) : Prop :=
  ∀ entry ∈ members.run.items, ∀ id, entry.finding = .known id → id.isCore = false

theorem Members.notCore_none : Members.none.NotCore :=
  List.forall_mem_nil _

theorem Members.Carries.notCore {members : Members} {start : Nat}
    {family : ProtocolId → Prop} (h : members.Carries start family)
    (hfamily : ∀ id, family id → id.isCore = false) : members.NotCore :=
  fun entry hentry id hid => hfamily id (h.known entry hentry id hid)

theorem isCore_of_mem_pieces {members : Members} (h : members.NotCore) {piece : Piece}
    (hpiece : piece ∈ members.pieces offset) : piece.place.isCore = false := by
  obtain ⟨entry, hentry, hknown⟩ := mem_entryPieces_known hpiece
  exact h entry hentry _ hknown

theorem Trailer.IsExtension.notCore {trailer : Trailer} (h : trailer.IsExtension) :
    trailer.id.isCore = false ∧ trailer.members.NotCore := by
  obtain ⟨_, header, hid, hmembers⟩ := h
  refine ⟨hid ▸ ProtocolId.isCore_extension header, ?_⟩
  split at hmembers
  · exact hmembers.1.notCore fun id => ProtocolId.IsHopByHopOption.isCore_eq
  · exact hmembers ▸ Members.notCore_none

theorem Trailer.IsAddressRecord.notCore {trailer : Trailer} (h : trailer.IsAddressRecord) :
    trailer.id.isCore = false ∧ trailer.members.NotCore :=
  ⟨h.id.isCore_eq, h.members ▸ Members.notCore_none⟩

theorem isCore_of_mem_trailerPieces {trailers : List Trailer}
    (h : ∀ trailer ∈ trailers, trailer.id.isCore = false ∧ trailer.members.NotCore)
    {piece : Piece} (hpiece : piece ∈ trailerPieces offset trailers) :
    piece.place.isCore = false := by
  induction trailers generalizing offset with
  | nil => cases hpiece
  | cons trailer rest ih =>
      rw [List.forall_mem_cons] at h
      rcases List.mem_cons.mp hpiece with rfl | hpiece
      · exact h.1.1
      · rcases List.mem_append.mp hpiece with hpiece | hpiece
        · exact isCore_of_mem_pieces h.1.2 hpiece
        · exact ih h.2 hpiece

theorem Layer.Shaped.notCore {layer : Layer} (h : layer.Shaped) :
    layer.members.NotCore ∧ ∀ trailer ∈ layer.trailers.getD [],
      trailer.id.isCore = false ∧ trailer.members.NotCore := by
  rcases h.cases with ⟨hnone, hmembers⟩ | ⟨hnone, start, _, hcarries⟩ |
    ⟨hmembers, trailers, htrailers, hall⟩
  · rw [hnone, hmembers]
    exact ⟨Members.notCore_none, List.forall_mem_nil _⟩
  · rw [hnone]
    exact ⟨hcarries.notCore fun id => ProtocolId.IsHeaderOption.isCore_eq, List.forall_mem_nil _⟩
  · rw [hmembers, htrailers]
    refine ⟨Members.notCore_none, ?_⟩
    intro trailer htrailer
    rcases hall trailer htrailer with hextension | hrecord
    · exact hextension.notCore
    · exact hrecord.notCore

theorem Layer.Shaped.isCore_parts {layer : Layer} (h : layer.Shaped)
    (hfront : front <+: layer.parts offset) :
    ∀ place ∈ front.map Piece.place, place.isCore = false := by
  obtain ⟨hmembers, htrailers⟩ := h.notCore
  intro place hplace
  obtain ⟨piece, hpiece, rfl⟩ := List.mem_map.mp hplace
  rcases List.mem_append.mp (hfront.subset hpiece) with hpiece | hpiece
  · exact isCore_of_mem_pieces hmembers hpiece
  · exact isCore_of_mem_trailerPieces htrailers hpiece

theorem Layer.Shaped.owns {layer : Layer} (h : layer.Shaped)
    (hfront : front <+: layer.parts offset)
    (hlimit : ∀ piece ∈ front, piece.place.stop ≤ limit) :
    layer.kind.Owns limit ⟨layer.kind.id, offset, layer.length + trailed front⟩
        (front.map Piece.place) := by
  have hform := h.form
  have hmembers (hnone : layer.trailers = none) :
      front <+: layer.members.pieces offset ∧ layer.length + trailed front = layer.length := by
    rw [Layer.parts_eq_members hnone] at hfront
    exact ⟨hfront, by rw [trailed_map_member (role_of_front hfront), Nat.add_zero]⟩
  have htrailers (hnone : layer.members = .none) :
      front <+: trailerPieces (offset + layer.length) (layer.trailers.getD []) := by
    rwa [Layer.parts, hnone] at hfront
  unfold Layer.Form at hform
  split at hform
  case h_1 hkind | h_2 hkind =>
    obtain ⟨hnone, hcarries, hwithin⟩ := hform
    obtain ⟨hfront, hlength⟩ := hmembers hnone
    rw [hkind, hlength]
    exact owned_of_within hcarries hwithin hfront
  case h_3 hkind =>
    obtain ⟨hlength, hnone, trailers, hsome, hextension⟩ := hform
    have hfront := htrailers hnone
    rw [hsome, Option.getD_some, hlength] at hfront
    rw [hkind, hlength]
    have howned := extensions_of_front hextension hfront
    rw [Nat.add_assoc] at howned
    exact howned
  case h_4 hkind =>
    obtain ⟨hlength, hnone, trailers, hsome, hrecord⟩ := hform
    have hfront := htrailers hnone
    rw [hsome, Option.getD_some, hlength] at hfront
    rw [hkind, hlength]
    have howned := addressRecords_of_front hrecord hfront
    rw [Nat.add_assoc] at howned
    exact howned
  case h_9 =>
    have hnil : front = [] := front_eq_nil hform.2 (hmembers hform.1).1
    rw [hnil]
    unfold HeaderKind.Owns
    split <;> first | rfl | contradiction
  all_goals
    rename_i hkind
    obtain ⟨hnone, hcarries⟩ := hform
    obtain ⟨hfront, hlength⟩ := hmembers hnone
    rw [hkind, hlength]
    exact owned_of_carries hcarries hfront hlimit

end Parts

theorem Members.Carries.spaced {members : Members} {start : Nat}
    {family : ProtocolId → Prop} (h : members.Carries start family) (hstart : 0 < start) :
    members.Spaced :=
  ⟨.inr (h.start_eq.symm ▸ hstart), h.length_pos⟩

theorem Trailer.IsExtension.spaced {trailer : Trailer} (h : trailer.IsExtension) :
    trailer.Spaced := by
  refine ⟨h.length_pos, ?_, h.within⟩
  obtain ⟨header, _, hmembers⟩ := h.header
  split at hmembers
  · exact hmembers.1.spaced (Nat.succ_pos 1)
  · exact hmembers ▸ Members.spaced_none

theorem Trailer.IsAddressRecord.spaced {trailer : Trailer} (h : trailer.IsAddressRecord) :
    trailer.Spaced :=
  ⟨h.length_pos, h.members ▸ Members.spaced_none, h.within⟩

theorem Layer.Shaped.spaced {layer : Layer} (h : layer.Shaped) : layer.Spaced := by
  rcases h.cases with ⟨hnone, hmembers⟩ | ⟨hnone, start, hstart, hcarries⟩ |
    ⟨hmembers, trailers, htrailers, hall⟩
  · exact ⟨h.length_pos, hmembers ▸ Members.spaced_none, hnone ▸ List.forall_mem_nil _⟩
  · exact ⟨h.length_pos, hcarries.spaced hstart, hnone ▸ List.forall_mem_nil _⟩
  · refine ⟨h.length_pos, hmembers ▸ Members.spaced_none, ?_⟩
    rw [htrailers]
    intro trailer htrailer
    rcases hall trailer htrailer with hextension | hrecord
    · exact hextension.spaced
    · exact hrecord.spaced

/-- What is recorded of the layers of a chain: each header owns what comes behind it,
and the headers lie end to end. -/
theorem headers_of_front {layers : List Layer} {front : List Piece} {offset limit : Nat}
    (hshaped : ∀ layer ∈ layers, layer.Shaped) (hfront : front <+: layerPieces offset layers)
    (hlimit : ∀ piece ∈ front, piece.place.stop ≤ limit) :
    Grouped Placement.isCore (Owned limit) (widened front) ∧
      ∃ stop, Tiled offset stop ((widened front).filter Placement.isCore) := by
  induction layers generalizing offset front with
  | nil =>
      rw [List.prefix_nil.mp hfront]
      exact ⟨.nil, offset, rfl⟩
  | cons layer rest ih =>
      rw [List.forall_mem_cons] at hshaped
      rcases front_layerPieces_cases hfront with rfl | ⟨parts, behind, rfl, hparts, hbehind, hwhole⟩
      · exact ⟨.nil, offset, rfl⟩
      · rw [List.forall_mem_cons, List.forall_mem_append] at hlimit
        obtain ⟨hgrouped, stop, htiled⟩ := ih hshaped.2 hbehind hlimit.2.2
        have howns := hshaped.1.owns hparts hlimit.2.1
        have hplain := hshaped.1.isCore_parts hparts
        have hcore : (⟨layer.kind.id, offset, layer.length + trailed parts⟩ :
            Placement).isCore = true := layer.kind.isCore_id
        rw [widened_front _ hparts hbehind]
        refine ⟨.group hcore hplain ⟨layer.kind, rfl, howns⟩ hgrouped, ?_⟩
        rw [filter_group hcore hplain]
        rcases hwhole with rfl | rfl
        · exact ⟨_, rfl, rfl⟩
        · rw [Layer.length_add_trailed]
          exact ⟨stop, rfl, htiled⟩

theorem ethernetMove_eq (datalink : Datalink) (rest : Bytes) :
    ∃ marks next, ethernetMove datalink rest = (Layer.plain .ethernet 0 14 marks).then next := by
  unfold ethernetMove
  split
  · exact ⟨_, _, rfl⟩
  · split <;> exact ⟨_, _, rfl⟩

theorem frameChain_eq (datalink : Datalink) (captured : Bytes) :
    ∃ marks layers, (frameChain datalink captured).items =
      Layer.plain .ethernet 0 14 marks :: layers := by
  obtain ⟨marks, next, hmove⟩ := ethernetMove_eq datalink captured
  refine ⟨marks, ?_⟩
  rw [frameChain, chain_eq, chainStep, hmove, Layer.then]
  dsimp only
  split
  · exact ⟨_, rfl⟩
  · exact ⟨[], rfl⟩

theorem accepted_framePieces (datalink : Datalink) (captured : Bytes) {limit : Nat}
    (hlimit : 14 ≤ limit) :
    ∃ layers behind, behind <+: layerPieces 14 layers ∧
      accepted RecordTable.capacity limit (framePieces datalink captured) =
        ⟨.header, HeaderKind.ethernet.id, 0, 14⟩ :: behind := by
  obtain ⟨marks, layers, hlayers⟩ := frameChain_eq datalink captured
  refine ⟨layers, _, accepted_front (RecordTable.capacity - 1) limit _, ?_⟩
  have hpieces : framePieces datalink captured =
      ⟨.header, HeaderKind.ethernet.id, 0, 14⟩ :: layerPieces 14 layers := by
    rw [framePieces, hlayers]
    rfl
  rw [hpieces]
  exact accepted_cons_of_le hlimit

namespace Dissector

theorem isEmpty_recorded (dissector : Dissector) (bytes : Bytes) {captured : Nat}
    (h : captured ≤ 65535) :
    (dissector.recorded bytes captured).table.records.isEmpty = decide (captured < 14) := by
  have hplaces := dissector.places_recorded bytes h
  rw [← List.isEmpty_map, ← RecordTable.places, hplaces]
  by_cases hshort : captured < 14
  · obtain ⟨marks, layers, hlayers⟩ := frameChain_eq dissector.settings.datalink bytes
    have hnone : accepted RecordTable.capacity captured
        (framePieces dissector.settings.datalink bytes) = [] := by
      rw [framePieces, hlayers, layerPieces, Layer.pieces, List.cons_append]
      exact accepted_cons_of_lt hshort
    rw [hnone, decide_eq_true hshort]
    rfl
  · obtain ⟨_, _, _, hfirst⟩ :=
      accepted_framePieces dissector.settings.datalink bytes (Nat.le_of_not_lt hshort)
    rw [hfirst, decide_eq_false hshort]
    rfl

theorem result_dissect {dissector : Dissector} {frame bytes : Bytes} {captured wire : Nat}
    (timestamp : UInt64) (h : dissector.captured? frame captured wire = .ok bytes) :
    (dissector.dissect frame timestamp captured wire).result =
      .ok (if 14 ≤ captured then captured else 0) := by
  have hempty := dissector.isEmpty_recorded bytes (captured?_eq_ok_iff.mp h).2.1
  simp only [dissect, h]
  refine congrArg Except.ok ?_
  change (if (dissector.recorded bytes captured).table.records.isEmpty then 0 else captured) = _
  rw [hempty, ← ite_not]
  simp

/-- The geometry of the record table of every packet that is long enough for an
Ethernet header. -/
theorem geometry_dissect {dissector : Dissector} {frame : Bytes} {timestamp : UInt64}
    {captured wire count : Nat} (hextension : dissector.extension = none)
    (hethernet : 14 ≤ captured)
    (h : (dissector.dissect frame timestamp captured wire).result = .ok count) :
    Geometry captured
      (dissector.dissect frame timestamp captured wire).dissector.table.places := by
  obtain ⟨_, hcaptured⟩ := captured?_of_dissect h
  rw [places_dissect timestamp hextension hcaptured]
  generalize dissector.settings.datalink = datalink
  generalize frame.take captured = bytes
  have haccepted := accepted_front RecordTable.capacity captured (framePieces datalink bytes)
  have hshaped := chain_shaped (.ethernet datalink) bytes
  obtain ⟨hgrouped, hgapless⟩ :=
    headers_of_front hshaped haccepted fun piece => stop_le_of_mem_accepted
  refine ⟨?_, ?_, hgapless, hgrouped⟩
  · obtain ⟨_, hrising⟩ := rising_layerPieces 0
      (fun layer hlayer => (hshaped layer hlayer).spaced) (chain_closed (.ethernet datalink) bytes)
    rw [← List.pairwise_map, widened_map fun _ _ => rfl, List.pairwise_map]
    exact hrising.ordered.sublist haccepted.sublist
  · obtain ⟨layers, behind, hbehind, heq⟩ := accepted_framePieces datalink bytes hethernet
    rw [heq, ← List.singleton_append, widened_append_front _ hbehind]
    rfl

/-- A frame with an IPv6 header, a Hop-by-Hop header, a padding option and a UDP
header. -/
def hopByHopFrame : Bytes :=
  List.replicate 12 0 ++ [0x86, 0xDD, 0x60, 0, 0, 0, 0, 16, 0, 64] ++ List.replicate 32 0 ++
    [17, 0, 1, 4, 0, 0, 0, 0] ++ List.replicate 8 0

theorem geometry_hopByHopFrame :
    ((new .default).dissect hopByHopFrame 0 70 70).result = .ok 70 ∧
      ((new .default).dissect hopByHopFrame 0 70 70).dissector.table.places =
        [⟨HeaderKind.ethernet.id, 0, 14⟩, ⟨HeaderKind.ipv6.id, 14, 48⟩,
          ⟨ExtensionHeader.hopByHop.id, 54, 8⟩, ⟨HopByHopOption.padN.id, 56, 6⟩,
          ⟨HeaderKind.udp.id, 62, 8⟩] ∧
      Geometry 70 ((new .default).dissect hopByHopFrame 0 70 70).dissector.table.places := by
  have hresult : ((new .default).dissect hopByHopFrame 0 70 70).result = .ok 70 := by decide
  exact ⟨hresult, by decide, geometry_dissect rfl (by decide) hresult⟩

end Dissector

end Dissection

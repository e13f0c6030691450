import Dissection.Proofs.HeaderOrder

namespace Dissection

namespace HeaderKind

/-- The header that an identifier stands for, if it is that of one. -/
def ofId? (id : ProtocolId) : Option HeaderKind :=
  all.find? fun kind => kind.id = id

@[simp] theorem ofId?_id (kind : HeaderKind) : ofId? kind.id = some kind := by
  cases kind <;> decide

theorem ofId?_of_not_core {id : ProtocolId} (h : id.isCore = false) : ofId? id = none := by
  rw [ofId?, List.find?_eq_none]
  intro kind _ hid
  rw [← of_decide_eq_true hid, kind.isCore_id] at h
  cases h

end HeaderKind

/-- The headers among places, in order. -/
def headerKinds (places : List Placement) : List HeaderKind :=
  places.filterMap fun place => HeaderKind.ofId? place.id

/-- The IP header of a network protocol. -/
def NetworkType.kind? : NetworkType → Option HeaderKind
  | .none => Option.none
  | .ipv4 => some .ipv4
  | .ipv6 => some .ipv6

/-- The transport protocol, if there is one. -/
def TransportType.toList : TransportType → List TransportType
  | .none => []
  | type => [type]

/-- A summary says of some headers what they show. -/
structure Summary.Agrees (summary : Summary) (kinds : List HeaderKind) : Prop where
  vlans_eq : summary.vlans = kinds.count .vlan
  labels_eq : summary.labels = kinds.count .mpls
  /-- The network protocol is that of the first IP header. -/
  network_eq : summary.network.kind? = kinds.find? HeaderKind.isIp
  /-- The transport protocol is that of the one transport header in the outermost
  packet. -/
  transport_eq : summary.transport.toList = (outermost kinds).filterMap HeaderKind.transport?
  snap_iff : summary.link = .snap ↔ .snap ∈ kinds
  llc_iff : summary.link = .llc ↔ .llc ∈ kinds ∧ .snap ∉ kinds

theorem headerKinds_widened {layers : List Layer} {front : List Piece} {offset : Nat}
    (hshaped : ∀ layer ∈ layers, layer.Shaped) (hfront : front <+: layerPieces offset layers) :
    headerKinds (widened front) = (layers.take (headers front)).map Layer.kind := by
  induction layers generalizing offset front with
  | nil =>
      rw [List.prefix_nil.mp hfront]
      rfl
  | cons layer rest ih =>
      rw [List.forall_mem_cons] at hshaped
      rcases front_layerPieces_cases hfront with rfl | ⟨parts, behind, rfl, hparts, hbehind, _⟩
      · rfl
      · have hplain : headerKinds (parts.map Piece.place) = [] := by
          rw [headerKinds, List.filterMap_eq_nil_iff]
          intro place hplace
          exact HeaderKind.ofId?_of_not_core (hshaped.1.isCore_parts hparts place hplace)
        have hheaders : headers parts = 0 := headers_eq_zero fun piece hpiece =>
          Layer.role_of_mem_parts (hparts.subset hpiece)
        have hcount : headers (⟨.header, layer.kind.id, offset, layer.length⟩ ::
            (parts ++ behind)) = headers behind + 1 := by
          rw [headers, List.countP_cons, ← headers, headers_append, hheaders, Nat.zero_add]
          rfl
        rw [hcount, List.take_succ_cons, List.map_cons, ← ih hshaped.2 hbehind,
          widened_front _ hparts hbehind, headerKinds, List.filterMap_cons,
          List.filterMap_append, ← headerKinds, hplain, layer.kind.ofId?_id]
        rfl

section Framing

namespace LinkType

/-- How far a framing has been told: by LLC, or by SNAP behind it. -/
def framing : LinkType → Nat
  | .llc => 1
  | .snap => 2
  | _ => 0

end LinkType

namespace HeaderKind

/-- The place of a header in the framing of a frame: the Ethernet header and tags come
first, then LLC, then SNAP, then what is framed. -/
def framing : HeaderKind → Nat
  | .ethernet | .vlan => 0
  | .llc => 1
  | .snap => 2
  | _ => 3

/-- What a header makes of the framing known before. -/
def Frames (kind : HeaderKind) (before after : LinkType) : Prop :=
  match kind with
  | .ethernet | .vlan => after = before ∨ after = .ether ∨ after = .novellRaw
  | .llc => after = .llc
  | .snap => after = .snap
  | _ => after = before

theorem framing_of_hasEtherType {kind : HeaderKind} {etherType : Nat}
    (h : kind.HasEtherType etherType) : kind.framing = 3 := by
  cases kind <;> first | rfl | exact h.elim

theorem framing_of_ipNumber? {kind : HeaderKind} {number : Nat}
    (h : kind.ipNumber? = some number) : kind.framing = 3 := by
  cases kind <;> first | rfl | cases h

theorem HasVersion.framing_eq {kind : HeaderKind} {rest : Bytes} (h : kind.HasVersion rest) :
    kind.framing = 3 := by
  obtain ⟨_, _, ⟨rfl, _⟩ | ⟨rfl, _⟩⟩ := h <;> rfl

end HeaderKind

theorem HeaderKind.Frames.told {kind : HeaderKind} {before after : LinkType}
    (h : kind.Frames before after) (hle : before.framing ≤ kind.framing) :
    after.framing ≤ kind.framing ∧ (after = .snap ↔ before = .snap ∨ kind = .snap) ∧
      (after = .llc ↔ (before = .llc ∨ kind = .llc) ∧ before ≠ .snap ∧ kind ≠ .snap) := by
  unfold Frames at h
  split at h
  case h_1 | h_2 =>
    rcases h with h | h | h <;> subst after <;> cases before <;>
      simp_all [framing, LinkType.framing]
  case h_3 | h_4 =>
    subst h
    cases before <;> simp_all [framing, LinkType.framing]
  case h_5 hllc hsnap =>
    subst h
    have hllc : kind ≠ .llc := hllc
    have hsnap : kind ≠ .snap := hsnap
    refine ⟨hle, by simp [hsnap], ?_⟩
    cases after <;> simp [hllc, hsnap]

/-- The layer makes of the framing what its kind does. -/
def Layer.Framed (layer : Layer) : Prop :=
  ∀ summary : Summary, layer.kind.Frames summary.link (summary.addAll layer.facts).link

theorem Layer.link_facts {layer : Layer}
    (h : ∀ summary : Summary, (summary.addAll layer.marks).link = summary.link)
    (summary : Summary) : (summary.addAll layer.facts).link = summary.link := by
  unfold facts
  split
  · exact h summary
  · rfl

theorem link_novellMarks (summary : Summary) (field : Nat) (payload : Bytes) :
    (summary.addAll (novellMarks field payload)).link = summary.link ∨
      (summary.addAll (novellMarks field payload)).link = .novellRaw := by
  unfold novellMarks
  split
  · exact .inr rfl
  · exact .inl rfl

variable {expected next : Expected} {rest : Bytes} {layer : Layer}

theorem Finds.framed (h : Finds rest expected layer next) : layer.Framed := by
  induction h with
  | novellFrame => exact fun _ => .inr (.inr rfl)
  | ethernetCut _ | vlanCut _ => exact fun _ => .inl rfl
  | ethernet _ =>
      intro summary
      show HeaderKind.ethernet.Frames summary.link (summary.addAll (framingMarks _ _)).link
      unfold framingMarks
      split
      · exact .inr (.inl rfl)
      · exact (link_novellMarks summary _ _).imp_right .inr
  | vlan _ => exact fun summary => (link_novellMarks (summary.add .vlan) _ _).imp_right .inr
  | llc _ _ _ _ _ | snapCut _ | snap _ => exact fun _ => rfl
  | labelledIpv4 _ _ _ ih | labelledIpv6 _ _ _ ih | quotedIpv4 _ _ _ ih
  | quotedIpv6 _ _ _ ih => exact ih
  | icmp4Echo _ hkind =>
      simp only [icmp4Echoes, List.mem_cons, Prod.mk.injEq, List.not_mem_nil, or_false] at hkind
      rcases hkind with ⟨_, rfl⟩ | ⟨_, rfl⟩ <;> exact Layer.link_facts fun _ => rfl
  | icmp6Error _ hkind =>
      simp only [icmp6Errors, List.mem_cons, Prod.mk.injEq, List.not_mem_nil, or_false] at hkind
      rcases hkind with ⟨_, rfl⟩ | ⟨_, rfl⟩ | ⟨_, rfl⟩ <;> exact Layer.link_facts fun _ => rfl
  | icmp6Echo _ hkind =>
      simp only [icmp6Echoes, List.mem_cons, Prod.mk.injEq, List.not_mem_nil, or_false] at hkind
      rcases hkind with ⟨_, rfl⟩ | ⟨_, rfl⟩ <;> exact Layer.link_facts fun _ => rfl
  | icmp6Discovery _ hkind =>
      simp only [icmp6Discoveries, List.mem_cons, Prod.mk.injEq, List.not_mem_nil,
        or_false] at hkind
      rcases hkind with ⟨_, rfl, _⟩ | ⟨_, rfl, _⟩ | ⟨_, rfl, _⟩ | ⟨_, rfl, _⟩ <;>
        exact Layer.link_facts fun _ => rfl
  | _ => exact Layer.link_facts fun _ => rfl

theorem Finds.framing_le (h : Finds rest expected layer next) {behind : Bytes}
    {kind : HeaderKind} (hyields : next.Yields behind kind) :
    layer.kind.framing ≤ kind.framing := by
  have hle (hkind : kind.framing = 3) : layer.kind.framing ≤ kind.framing := by
    rw [hkind]
    cases layer.kind <;> decide
  induction h with
  | novellFrame | ethernet _ | vlan _ => exact Nat.zero_le _
  | llc _ _ _ _ _ =>
      show 1 ≤ kind.framing
      rcases Expected.servicePoints_of_yields hyields with ⟨rfl, _⟩ | ⟨rfl, _⟩ | ⟨rfl, _⟩ <;>
        decide
  | snap _ =>
      exact hle (HeaderKind.framing_of_hasEtherType (Expected.hasEtherType_of_yields hyields))
  | mpls _ =>
      split at hyields
      · exact hle (HeaderKind.HasVersion.framing_eq hyields)
      · cases hyields
        exact Nat.le_refl _
  | ipv4 _ _ _ _ _ =>
      split at hyields
      · exact hyields.elim
      · exact hle (HeaderKind.framing_of_ipNumber? (Expected.ipNumber?_of_yields hyields))
  | ipv6 _ _ _ _ =>
      exact hle (HeaderKind.framing_of_ipNumber? (Expected.ipNumber?_of_yields hyields))
  | labelledIpv4 _ _ _ ih | labelledIpv6 _ _ _ ih | quotedIpv4 _ _ _ ih
  | quotedIpv6 _ _ _ ih => exact ih hyields hle
  | gre _ _ _ =>
      rcases Expected.grePayload_of_yields hyields with ⟨rfl, _⟩ | ⟨rfl, _⟩ <;> exact hle rfl
  | icmp6Error _ _ =>
      exact hle (HeaderKind.HasVersion.framing_eq (Expected.yields_of_nested hyields))
  | _ => exact hyields.elim

theorem Scans.framing_sorted {found : Scanned Layer Ending}
    (h : Scans chainStep .silent expected rest found) :
    (found.items.map fun layer => layer.kind.framing).IsChain (· ≤ ·) := by
  induction h with
  | stop _ => exact .nil
  | last _ _ => exact .singleton _
  | @take _ _ _ _ _ found hmove _ hbehind ih =>
      obtain ⟨rfl, hfinds⟩ := chainStep_eq_take_iff.mp hmove
      cases hitems : found.items with
      | nil =>
          rw [Scanned.cons_items, hitems]
          exact .singleton _
      | cons first others =>
          rw [hitems] at ih
          rw [Scanned.cons_items, hitems]
          exact .cons_cons (hfinds.framing_le (hbehind.yields hitems)) ih

end Framing

theorem link_flatMap_facts {layers : List Layer} (hframed : ∀ layer ∈ layers, layer.Framed)
    (hsorted : (layers.map fun layer => layer.kind.framing).Pairwise (· ≤ ·))
    (summary : Summary) (hbefore : ∀ layer ∈ layers, summary.link.framing ≤ layer.kind.framing) :
    let after := (summary.addAll (layers.flatMap Layer.facts)).link
    let kinds := layers.map Layer.kind
    (after = .snap ↔ summary.link = .snap ∨ .snap ∈ kinds) ∧
      (after = .llc ↔ (summary.link = .llc ∨ .llc ∈ kinds) ∧ summary.link ≠ .snap ∧
        .snap ∉ kinds) := by
  induction layers generalizing summary with
  | nil => exact ⟨by simp, by simp +contextual⟩
  | cons layer rest ih =>
      rw [List.forall_mem_cons] at hframed hbefore
      rw [List.map_cons, List.pairwise_cons] at hsorted
      obtain ⟨hle, hsnap, hllc⟩ := (hframed.1 summary).told hbefore.1
      have hbehind : ∀ next ∈ rest,
          (summary.addAll layer.facts).link.framing ≤ next.kind.framing := fun next hnext =>
        hle.trans (hsorted.1 _ (List.mem_map_of_mem hnext))
      obtain ⟨hsnapRest, hllcRest⟩ := ih hframed.2 hsorted.2 _ hbehind
      rw [List.flatMap_cons, Summary.addAll_append, List.map_cons]
      dsimp only
      rw [hsnapRest, hllcRest, List.mem_cons, List.mem_cons, ne_eq, hsnap, hllc]
      constructor <;> grind

theorem Summary.Agrees.of_unfragmented {summary other : Summary} {kinds : List HeaderKind}
    (h : other.Agrees kinds) (heq : summary.unfragmented = other.unfragmented) :
    summary.Agrees kinds := by
  obtain ⟨link, network, transport, vlans, labels, fragment⟩ := summary
  cases heq
  exact ⟨h.vlans_eq, h.labels_eq, h.network_eq, h.transport_eq, h.snap_iff, h.llc_iff⟩

theorem NetworkType.kind?_of_network? {kind : HeaderKind} {type : NetworkType}
    (h : kind.network? = some type) : type.kind? = some kind := by
  cases kind <;> cases h <;> rfl

theorem TransportType.toList_of_transport? {kind : HeaderKind} {type : TransportType}
    (h : kind.transport? = some type) : type.toList = [type] := by
  cases kind <;> cases h <;> rfl

/-- The facts of the headers of a chain come to a summary that agrees with them. -/
theorem agrees_facts {layers : List Layer} (hordered : Ordered 0 (layers.map Layer.outline))
    (hmarked : ∀ layer ∈ layers, layer.Marked) (hframed : ∀ layer ∈ layers, layer.Framed)
    (hsorted : (layers.map fun layer => layer.kind.framing).Pairwise (· ≤ ·)) :
    (Summary.blank.addAll (layers.flatMap Layer.facts)).Agrees (layers.map Layer.kind) := by
  have hkinds : (layers.map Layer.outline).map Prod.fst = layers.map Layer.kind := by
    rw [List.map_map]
    rfl
  obtain ⟨htally, hfound⟩ := hordered.tally_eq Summary.blank.tally
  rw [← tally_flatMap_facts _ hmarked, hkinds] at htally
  rw [hkinds] at hfound
  have hlink := link_flatMap_facts hframed hsorted .blank fun _ _ => Nat.zero_le _
  refine ⟨?_, ?_, ?_, ?_, ?_, ?_⟩
  · exact (congrArg Tally.vlans htally).trans (Nat.zero_add _)
  · exact (congrArg Tally.labels htally).trans (Nat.zero_add _)
  · rw [show Summary.network _ = _ from congrArg Tally.network htally]
    cases hfind : (layers.map Layer.kind).find? HeaderKind.isIp with
    | none => rfl
    | some kind =>
        obtain ⟨type, htype, _⟩ := Tally.add_of_isIp (List.find?_some hfind)
        rw [Option.bind_some, htype]
        exact NetworkType.kind?_of_network? htype
  · rw [show Summary.transport _ = _ from congrArg Tally.transport htally]
    cases hlist : (outermost (layers.map Layer.kind)).filterMap HeaderKind.transport? with
    | nil => rfl
    | cons type others =>
        rw [hlist, List.length_cons] at hfound
        obtain ⟨kind, _, htype⟩ := List.mem_filterMap.mp (hlist ▸ List.mem_cons_self)
        rw [List.eq_nil_of_length_eq_zero (Nat.le_zero.mp (Nat.le_of_succ_le_succ hfound))]
        exact TransportType.toList_of_transport? htype
  · simpa [Summary.blank] using hlink.1
  · simpa [Summary.blank] using hlink.2

namespace Dissector

/-- What the summary of a packet says of its framing, its tags and its outermost protocols
is what the headers show that are recorded of it. -/
theorem agreement_dissect {dissector : Dissector} {frame : Bytes} {timestamp : UInt64}
    {captured wire count : Nat} (hextension : dissector.extension = none)
    (h : (dissector.dissect frame timestamp captured wire).result = .ok count) :
    let packet := (dissector.dissect frame timestamp captured wire).dissector.packet
    packet.summary.Agrees (headerKinds packet.table.places) := by
  obtain ⟨_, hcaptured⟩ := captured?_of_dissect h
  have hregular := regular_empty dissector.settings.defaultMask
    (captured?_eq_ok_iff.mp hcaptured).2.1
  have hscans : Scans chainStep .silent _ _
      (frameChain dissector.settings.datalink (frame.take captured)) :=
    scans_scan chainStep_advances _ _
  have hfinds : ∀ layer ∈ (frameChain dissector.settings.datalink (frame.take captured)).items,
      layer.Marked ∧ layer.Framed := by
    refine hscans.forall_items ?_
    intro expected rest layer span next hmove
    have hfinds := (chainStep_eq_take_iff.mp hmove).2
    exact ⟨hfinds.marked, hfinds.framed⟩
  have hkinds := headerKinds_widened
    (chain_shaped (.ethernet dissector.settings.datalink) (frame.take captured))
    (accepted_front RecordTable.capacity captured (layerPieces 0 _))
  have hsummary := unfragmented_recordLayers hregular .blank 0
    (chain_closed (.ethernet dissector.settings.datalink) (frame.take captured))
  intro packet
  have hpacket : packet = _ := packet_dissect timestamp hextension hcaptured
  have hplaces : packet.table.places = _ := places_dissect timestamp hextension hcaptured
  rw [hplaces, framePieces, frameChain, hkinds]
  refine Summary.Agrees.of_unfragmented (agrees_facts ?_ ?_ ?_ ?_) ?_
  · rw [List.map_take]
    exact (hscans.ordered rfl).take _
  · exact fun layer hlayer => (hfinds layer (List.mem_of_mem_take hlayer)).1
  · exact fun layer hlayer => (hfinds layer (List.mem_of_mem_take hlayer)).2
  · rw [List.map_take]
    exact (List.isChain_iff_pairwise.mp hscans.framing_sorted).sublist (List.take_sublist _ _)
  · rw [hpacket]
    exact hsummary

/-- A tagged frame with a packet in a packet. -/
def tunnelFrame : Bytes :=
  List.replicate 12 0 ++ [0x81, 0, 0, 7, 8, 0] ++
    [0x45, 0, 0, 48, 0, 0, 0, 0, 64, 4] ++ List.replicate 10 0 ++
    [0x45, 0, 0, 28, 0, 0, 0, 0, 64, 17] ++ List.replicate 18 0

theorem agrees_tunnelFrame :
    let packet := ((new .default).dissect tunnelFrame 0 66 66).dissector.packet
    ((new .default).dissect tunnelFrame 0 66 66).result = .ok 66 ∧
      headerKinds packet.table.places = [.ethernet, .vlan, .ipv4, .ipv4, .udp] ∧
      packet.summary = ⟨.ether, .ipv4, .none, 1, 0, .none⟩ ∧
      packet.summary.Agrees (headerKinds packet.table.places) := by
  intro packet
  have hresult : ((new .default).dissect tunnelFrame 0 66 66).result = .ok 66 := by decide
  exact ⟨hresult, by decide, by decide, agreement_dissect rfl hresult⟩

end Dissector

end Dissection

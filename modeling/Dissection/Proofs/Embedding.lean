import Dissection.Proofs.Completeness
import Dissection.Proofs.Deepening
import Dissection.Proofs.Position

namespace Dissection

theorem layerPieces_deepen (extra offset : Nat) (layers : List Layer) :
    layerPieces offset (layers.map (Layer.deepen extra)) = layerPieces offset layers := by
  induction layers generalizing offset with
  | nil => rfl
  | cons layer rest ih =>
      rw [List.map_cons, layerPieces, layerPieces, ih]
      rfl

theorem accepted_append_cases (room limit : Nat) (pieces behind : List Piece) :
    accepted room limit (pieces ++ behind) = accepted room limit pieces ∨
      accepted room limit pieces = pieces ∧ ∃ front, front <+: behind ∧ front ≠ [] ∧
        accepted room limit (pieces ++ behind) = pieces ++ front := by
  by_cases hall : accepted room limit pieces = pieces
  · have hfit : ∀ piece ∈ pieces, piece.place.stop ≤ limit := fun piece hpiece =>
      stop_le_of_mem_accepted (hall ▸ hpiece)
    rw [accepted_append (.inr hfit), hall]
    by_cases hnone : accepted (room - pieces.length) limit behind = []
    · exact .inl (by rw [hnone, List.append_nil])
    · exact .inr ⟨rfl, _, accepted_front _ _ _, hnone, rfl⟩
  · exact .inl (accepted_append_of_ne hall)

theorem ipPlaces_pos {layers : List Layer} {front : List Piece} {offset : Nat}
    (hfront : front <+: layerPieces offset layers) (hne : front ≠ [])
    (hhead : ∀ next ∈ layers.head?, next.kind.isIp = true) : 0 < ipPlaces (widened front) := by
  cases layers with
  | nil => exact absurd (List.prefix_nil.mp hfront) hne
  | cons next others =>
      obtain rfl | ⟨parts, behind, rfl, hparts, hbehind, _⟩ := front_layerPieces_cases hfront
      · exact absurd rfl hne
      · rw [widened_front _ hparts hbehind, ipPlaces, List.countP_pos_iff]
        refine ⟨_, List.mem_cons_self, ?_⟩
        rw [HeaderKind.isIp_place]
        exact hhead next rfl

theorem chainPlaces_deepen {expected : Expected} {extra count : Nat} (room : Nat) (rest : Bytes)
    (hdeepens : expected.Deepens extra) (hcount : expected.Behind count) :
    let shallow := chainPlaces room expected rest
    let deep := chainPlaces room (expected.deepen extra) rest
    deep <+: shallow ∧
      (count + ipPlaces shallow + extra ≤ Expected.nestingLimit → deep = shallow) := by
  intro shallow deep
  obtain ⟨init, behind, hitems, hdeeper, hhead⟩ :=
    (scans_scan chainStep_advances expected rest).deepen hdeepens hcount
  have hshaped : ∀ layer ∈ init, layer.Shaped := fun layer hlayer =>
    chain_shaped expected rest layer (hitems ▸ List.mem_append_left behind hlayer)
  have hdeep : deep = widened (accepted room rest.length (layerPieces 0 init)) := by
    rw [← layerPieces_deepen extra, ← hdeeper]
    rfl
  have hshallow : shallow = widened (accepted room rest.length
      (layerPieces 0 init ++ layerPieces (0 + total Layer.span init) behind)) := by
    rw [← layerPieces_append, ← hitems]
    rfl
  rcases accepted_append_cases room rest.length (layerPieces 0 init)
    (layerPieces (0 + total Layer.span init) behind) with hsame | ⟨hall, front, hfront, hne, hmore⟩
  · have heq : deep = shallow := by rw [hdeep, hshallow, hsame]
    exact ⟨heq ▸ List.prefix_rfl, fun _ => heq⟩
  · rw [hall] at hdeep
    rw [hmore, widened_append_front _ hfront, ← hdeep] at hshallow
    refine ⟨⟨_, hshallow.symm⟩, ?_⟩
    -- What is taken beyond the layers of the deeper chain begins with the IP header at the limit.
    have hpos := ipPlaces_pos hfront hne fun next hnext => (hhead next hnext).1
    have hplaces : ipPlaces shallow = ipLayers init + ipPlaces (widened front) := by
      rw [hshallow, ipPlaces, List.countP_append, hdeep]
      exact congrArg (· + _) (ipPlaces_layerPieces 0 hshaped)
    intro hlimit
    cases behind with
    | nil => exact absurd (List.prefix_nil.mp hfront) hne
    | cons next others =>
        have := (hhead next rfl).2
        omega

theorem Expected.deepen_inside {inside : Nat → Expected}
    (hinside : inside = Expected.ipv4 ∨ inside = Expected.ipv6) {depth extra : Nat}
    (h : depth + extra < nestingLimit) :
    (inside depth).deepen extra = inside (depth + extra) ∧ (inside depth).Deepens extra ∧
      (inside depth).Behind depth := by
  rcases hinside with rfl | rfl <;>
    exact ⟨entered_of_lt h _, .inl h, rfl, Nat.lt_of_le_of_lt (Nat.le_add_right _ _) h⟩

/-- The same packet, wherever it lies and at whatever depths below the limit of nesting: the
records at the greater depth are the first of those at the lesser, and all of them unless
these hold more IP headers than may be entered from the greater depth. -/
theorem recordChain_embeds {inside : Nat → Expected}
    (hinside : inside = Expected.ipv4 ∨ inside = Expected.ipv6) {bytes others : Bytes}
    {offset otherOffset : Nat} (hbytes : bytes.drop offset = others.drop otherOffset)
    {table other : RecordTable} (htable : table.Regular) (hother : other.Regular)
    (hsize : table.size = other.size) (hlimit : table.limit = bytes.length)
    (hotherLimit : other.limit = others.length) {depth otherDepth : Nat}
    (hdepth : depth ≤ otherDepth) (hnesting : otherDepth < Expected.nestingLimit)
    (summary otherSummary : Summary) :
    ∃ places front,
      (recordChain table summary bytes offset (inside depth)).1.table.places =
        table.places ++ places.map (Placement.shift offset) ∧
      (recordChain other otherSummary others otherOffset (inside otherDepth)).1.table.places =
        other.places ++ front.map (Placement.shift otherOffset) ∧
      front <+: places ∧
      (ipPlaces places ≤ Expected.nestingLimit - otherDepth → front = places) := by
  obtain ⟨extra, rfl⟩ := Nat.exists_eq_add_of_le hdepth
  have hroom : other.room = table.room := by
    rw [RecordTable.room, RecordTable.room, hsize]
  obtain ⟨hdeepen, hdeepens, hbehind⟩ := Expected.deepen_inside hinside hnesting
  have hplaces := chainPlaces_deepen table.room (bytes.drop offset) hdeepens hbehind
  rw [hdeepen] at hplaces
  refine ⟨_, _, (takes_recordChain htable summary hlimit offset _).places_eq,
    (takes_recordChain hother otherSummary hotherLimit otherOffset _).places_eq, ?_⟩
  rw [hroom, ← hbytes]
  refine ⟨hplaces.1, ?_⟩
  intro hip
  exact hplaces.2 (by omega)

/-- An IPv4 packet with a UDP header. -/
def datagram : Bytes :=
  [0x45, 0, 0, 28, 0, 0, 0, 0, 64, 17] ++ List.replicate 18 0

/-- An IPv4 packet with the datagram in it. -/
def tunnelled : Bytes :=
  [0x45, 0, 0, 48, 0, 0, 0, 0, 64, 4] ++ List.replicate 10 0 ++ datagram

theorem embeds_tunnelled :
    let alone : RecordTable := ⟨[.ofNats HeaderKind.mpls.id 0 4], 0, 28⟩
    let outer : RecordTable := ⟨[.ofNats HeaderKind.ipv4.id 0 20], 0, 48⟩
    let places := [⟨HeaderKind.ipv4.id, 0, 20⟩, ⟨HeaderKind.udp.id, 20, 8⟩]
    (recordChain alone .blank datagram 0 (.ipv4 0)).1.table.places = alone.places ++ places ∧
      (recordChain outer .blank tunnelled 20 (.ipv4 1)).1.table.places =
        outer.places ++ places.map (Placement.shift 20) := by
  intro alone outer places
  have halone : (recordChain alone .blank datagram 0 (.ipv4 0)).1.table.places =
      alone.places ++ places := by decide
  obtain ⟨found, front, hfound, hfront, _, hsame⟩ :=
    recordChain_embeds (.inl rfl) (by decide : datagram.drop 0 = tunnelled.drop 20)
      (⟨by decide, by decide⟩ : alone.Regular) (⟨by decide, by decide⟩ : outer.Regular) rfl rfl
      rfl (Nat.zero_le 1) (by decide) .blank .blank
  have hplaces : found = places := by
    have hshift : found.map (Placement.shift 0) = places :=
      List.append_cancel_left (hfound.symm.trans halone)
    rw [← hshift]
    exact (List.map_id found).symm
  subst hplaces
  exact ⟨halone, by rw [hfront, hsame (by decide)]⟩

theorem Finds.enters {expected next : Expected} {rest : Bytes} {layer : Layer} {count : Nat}
    (h : Finds rest expected layer next) (hcount : expected.Behind count)
    (hip : layer.kind.isIp = true) :
    ∃ inside, (inside = Expected.ipv4 ∨ inside = Expected.ipv6) ∧
      count < Expected.nestingLimit ∧ Finds rest (inside count) layer next := by
  induction h with
  | ipv4 hbyte hversion hlength hword hnumber =>
      obtain ⟨rfl, hdepth⟩ := hcount
      exact ⟨_, .inl rfl, hdepth, .ipv4 hbyte hversion hlength hword hnumber⟩
  | ipv6Cut hbyte hversion hcode hverdict =>
      obtain ⟨rfl, hdepth⟩ := hcount
      exact ⟨_, .inr rfl, hdepth, .ipv6Cut hbyte hversion hcode hverdict⟩
  | ipv6 hbyte hversion hcode hverdict =>
      obtain ⟨rfl, hdepth⟩ := hcount
      exact ⟨_, .inr rfl, hdepth, .ipv6 hbyte hversion hcode hverdict⟩
  | labelledIpv4 _ _ _ ih | labelledIpv6 _ _ _ ih =>
      cases hcount
      exact ih ⟨rfl, by decide⟩ hip
  | quotedIpv4 _ _ _ ih | quotedIpv6 _ _ _ ih => exact ih hcount hip
  | icmp4Echo _ hkind =>
      have hplain : ∀ message ∈ icmp4Echoes, message.2.isIp = false := by decide
      cases (hplain _ hkind).symm.trans hip
  | icmp6Error _ hkind =>
      have hplain : ∀ message ∈ icmp6Errors, message.2.isIp = false := by decide
      cases (hplain _ hkind).symm.trans hip
  | icmp6Echo _ hkind =>
      have hplain : ∀ message ∈ icmp6Echoes, message.2.isIp = false := by decide
      cases (hplain _ hkind).symm.trans hip
  | icmp6Discovery _ hkind =>
      have hplain : ∀ message ∈ icmp6Discoveries, message.2.1.isIp = false := by decide
      cases (hplain _ hkind).symm.trans hip
  | _ => cases hip

theorem chain_eq_of_finds {expected other next : Expected} {rest : Bytes} {layer : Layer}
    (h : Finds rest expected layer next) (hother : Finds rest other layer next) :
    chain expected rest = chain other rest := by
  rw [chain_eq, chain_eq, h.chainStep_eq, hother.chainStep_eq]

namespace Dissector

/-- A packet that is found behind other headers, all of them recorded, is recorded behind
them as if it were the outermost, up to where it lies and to the limit of nesting. -/
theorem embeds_dissect {dissector : Dissector} {frame bytes : Bytes} {captured wire : Nat}
    (timestamp : UInt64) (hextension : dissector.extension = none)
    (hdatalink : dissector.settings.datalink = .ethernet)
    (h : dissector.captured? frame captured wire = .ok bytes) {init behind : List Layer}
    {layer : Layer} (hitems : (frameChain .ethernet bytes).items = init ++ layer :: behind)
    (hip : layer.kind.isIp = true)
    (hrecorded : accepted RecordTable.capacity captured (layerPieces 0 init) =
      layerPieces 0 init) :
    ∃ inside, (inside = Expected.ipv4 ∨ inside = Expected.ipv6) ∧
      let start := total Layer.span init
      let alone := chainPlaces (RecordTable.capacity - (layerPieces 0 init).length) (inside 0)
        (bytes.drop start)
      ∃ front,
        (dissector.dissect frame timestamp captured wire).dissector.table.places =
          widened (layerPieces 0 init) ++ front.map (Placement.shift start) ∧
        front <+: alone ∧
        (ipPlaces alone + ipLayers init ≤ Expected.nestingLimit → front = alone) := by
  obtain ⟨before, _, hbehind, hresumed⟩ := (scans_scan chainStep_advances _ bytes).resume
    (by decide) (by rfl : (Expected.ethernet .ethernet).Behind 0) hitems
  obtain ⟨next, hfinds, _⟩ := hresumed.first
  rw [Nat.zero_add] at hbehind
  obtain ⟨inside, hinside, hdepth, henters⟩ := hfinds.enters hbehind hip
  have hchain : (chain (inside (ipLayers init)) (bytes.drop (total Layer.span init))).items =
      layer :: behind := by
    rw [← chain_eq_of_finds hfinds henters, chain, hresumed.eq_scan chainStep_advances]
  refine ⟨inside, hinside, ?_⟩
  intro start alone
  obtain ⟨hdeepen, hdeepens, hcount⟩ :=
    Expected.deepen_inside hinside (by rwa [Nat.zero_add] : 0 + ipLayers init < _)
  have hplaces := chainPlaces_deepen (RecordTable.capacity - (layerPieces 0 init).length)
    (bytes.drop start) hdeepens hcount
  rw [hdeepen, Nat.zero_add] at hplaces
  refine ⟨_, ?_, hplaces.1, ?_⟩
  · have hlength : captured = bytes.length := by
      obtain ⟨_, _, _, hframe, rfl⟩ := captured?_eq_ok_iff.mp h
      exact (List.length_take_of_le hframe).symm
    have hfit : ∀ piece ∈ layerPieces 0 init, piece.place.stop ≤ captured := fun piece hpiece =>
      stop_le_of_mem_accepted (hrecorded ▸ hpiece)
    rw [places_dissect timestamp hextension h, hdatalink, framePieces, hitems,
      layerPieces_append, accepted_append (.inr hfit), hrecorded,
      widened_append_front _ (accepted_front _ _ _), ← hchain, Nat.zero_add, hlength,
      widened_chain]
  · intro hlimit
    exact hplaces.2 (by rwa [Nat.zero_add])

end Dissector

end Dissection

import Dissection.Frame.Chain
import Dissection.Proofs.Scanning

namespace Dissection

open Bytes

/-- The spanning tree messages by type, with their lengths. -/
def bridgeUnits : List (Nat × Nat) :=
  [(BridgeUnit.configuration, 35), (BridgeUnit.topologyChange, 4), (BridgeUnit.rapid, 36)]

/-- The echo messages of ICMPv4 by type. -/
def icmp4Echoes : List (Nat × HeaderKind) :=
  [(Icmp4Type.echoRequest, .icmp4EchoRequest), (Icmp4Type.echoReply, .icmp4EchoReply)]

/-- The echo messages of ICMPv6 by type. -/
def icmp6Echoes : List (Nat × HeaderKind) :=
  [(Icmp6Type.echoRequest, .icmp6EchoRequest), (Icmp6Type.echoReply, .icmp6EchoReply)]

/-- The error messages of ICMPv6 by type, which quote a packet. -/
def icmp6Errors : List (Nat × HeaderKind) :=
  [(Icmp6Type.destinationUnreachable, .icmp6DestinationUnreachable),
    (Icmp6Type.timeExceeded, .icmp6TimeExceeded),
    (Icmp6Type.parameterProblem, .icmp6ParameterProblem)]

/-- The discovery messages of ICMPv6 by type, with their lengths without options. -/
def icmp6Discoveries : List (Nat × HeaderKind × Nat) :=
  [(Icmp6Type.routerSolicitation, .icmp6RouterSolicitation, 8),
    (Icmp6Type.routerAdvertisement, .icmp6RouterAdvertisement, 16),
    (Icmp6Type.neighborSolicitation, .icmp6NeighborSolicitation, 24),
    (Icmp6Type.neighborAdvertisement, .icmp6NeighborAdvertisement, 24)]

/-- The types of ICMPv6 that have a kind of their own. -/
def icmp6Types : List Nat :=
  icmp6Errors.map Prod.fst ++ icmp6Echoes.map Prod.fst ++ icmp6Discoveries.map Prod.fst ++
    [Icmp6Type.listenerReport]

/-- Where a header is expected, the bytes begin with one that is found as a layer,
behind which another is expected next. -/
inductive Finds (rest : Bytes) : Expected → Layer → Expected → Prop
  | novellFrame :
      Finds rest (.ethernet .novellRaw) (.plain .ethernet 0 14 [.link .novellRaw]) .ipx
  | ethernetCut (hfield : u16? rest 12 = none) :
      Finds rest (.ethernet .ethernet) (.plain .ethernet 0 14 []) (.nothing .silent)
  | ethernet {field : Nat} (hfield : u16? rest 12 = some field) :
      Finds rest (.ethernet .ethernet)
        (.plain .ethernet 0 14 (framingMarks field (rest.drop 14))) (.ofTypeField field)
  | vlanCut (hfield : u16? rest 2 = none) :
      Finds rest .vlan (.plain .vlan 0 4 [.vlan]) (.nothing .silent)
  | vlan {field : Nat} (hfield : u16? rest 2 = some field) :
      Finds rest .vlan (.plain .vlan 0 4 (.vlan :: novellMarks field (rest.drop 4)))
        (.ofTypeField field)
  | markedIpx (hmarker : u16? rest 0 = some novellMarker) :
      Finds rest .sized (.plain .ipx 0 30 []) (.nothing .silent)
  | llc {word destination source control : Nat} (hword : u16? rest 0 = some word)
      (hother : word ≠ novellMarker) (hdestination : u8? rest 0 = some destination)
      (hsource : u8? rest 1 = some source) (hcontrol : u8? rest 2 = some control) :
      Finds rest .sized (.plain .llc 0 (if control % 4 = 3 then 3 else 4) [.link .llc])
        (.ofServicePoints destination source control)
  | snapCut (htype : u16? rest 3 = none) :
      Finds rest .snap (.plain .snap 0 5 [.link .snap]) (.nothing .silent)
  | snap {type : Nat} (htype : u16? rest 3 = some type) :
      Finds rest .snap (.plain .snap 0 5 [.link .snap]) (.ofEtherType type)
  | arp {hardware protocol : Nat} (hhardware : u8? rest 4 = some hardware)
      (hprotocol : u8? rest 5 = some protocol) :
      Finds rest .arp (.plain .arp 0 (8 + 2 * (hardware + protocol)) []) (.nothing .silent)
  | ipx : Finds rest .ipx (.plain .ipx 0 30 []) (.nothing .silent)
  | stp {kind length : Nat} (hkind : u8? rest 3 = some kind)
      (hlength : (kind, length) ∈ bridgeUnits) :
      Finds rest .stp (.plain .stp 0 length []) (.nothing .silent)
  | mpls {entry : Nat} (hentry : u32? rest 0 = some entry) :
      Finds rest .mpls (.plain .mpls 0 4 [.mpls])
        (if entry.testBit 8 then .labelled else .mpls)
  | ipv4 {depth byte word number : Nat} (hbyte : u8? rest 0 = some byte)
      (hversion : byte / 16 = 4) (hlength : 20 ≤ byte % 16 * 4)
      (hword : u16? rest 6 = some word) (hnumber : u8? rest 9 = some number) :
      Finds rest (.ipv4 depth)
        ⟨.ipv4, depth, byte % 16 * 4, [.network .ipv4, .fragment (.ofIpv4 word)],
          ⟨20, optionEntries (fun kind => (Ipv4Option.ofCode? kind).map Ipv4Option.id)
            (byte % 16 * 4 - 20) (rest.drop 20)⟩, none⟩
        (if 0 < word % 8192 then .nothing .silent else .ofIpNumber depth number)
  | ipv6Cut {depth byte code : Nat} (hbyte : u8? rest 0 = some byte)
      (hversion : byte / 16 = 6) (hcode : u8? rest 6 = some code)
      (hverdict : (extensionTrailers code (rest.drop 40)).verdict = none) :
      Finds rest (.ipv6 depth)
        ⟨.ipv6, depth, 40, [.network .ipv6], .none,
          some (extensionTrailers code (rest.drop 40)).items⟩ (.nothing .silent)
  | ipv6 {depth byte code number : Nat} (hbyte : u8? rest 0 = some byte)
      (hversion : byte / 16 = 6) (hcode : u8? rest 6 = some code)
      (hverdict : (extensionTrailers code (rest.drop 40)).verdict = some number) :
      Finds rest (.ipv6 depth)
        ⟨.ipv6, depth, 40, [.network .ipv6], .none,
          some (extensionTrailers code (rest.drop 40)).items⟩ (.ofIpNumber depth number)
  | labelledIpv4 {byte : Nat} {layer : Layer} {next : Expected}
      (hbyte : u8? rest 0 = some byte) (hversion : byte / 16 = 4)
      (hfinds : Finds rest (.ipv4 0) layer next) : Finds rest .labelled layer next
  | labelledIpv6 {byte : Nat} {layer : Layer} {next : Expected}
      (hbyte : u8? rest 0 = some byte) (hversion : byte / 16 = 6)
      (hfinds : Finds rest (.ipv6 0) layer next) : Finds rest .labelled layer next
  | quotedIpv4 {depth byte : Nat} {layer : Layer} {next : Expected}
      (hbyte : u8? rest 0 = some byte) (hversion : byte / 16 = 4)
      (hfinds : Finds rest (.ipv4 depth) layer next) : Finds rest (.quoted depth) layer next
  | quotedIpv6 {depth byte : Nat} {layer : Layer} {next : Expected}
      (hbyte : u8? rest 0 = some byte) (hversion : byte / 16 = 6)
      (hfinds : Finds rest (.ipv6 depth) layer next) : Finds rest (.quoted depth) layer next
  | tcp {depth byte : Nat} (hbyte : u8? rest 12 = some byte) (hlength : 20 ≤ byte / 16 * 4) :
      Finds rest (.tcp depth)
        ⟨.tcp, depth, byte / 16 * 4, [.transport .tcp],
          ⟨20, optionEntries (fun kind => (TcpOption.ofCode? kind).map TcpOption.id)
            (byte / 16 * 4 - 20) (rest.drop 20)⟩, none⟩ (.nothing .silent)
  | udpCut {depth : Nat} (hports : u16? rest 0 = none ∨ u16? rest 2 = none) :
      Finds rest (.udp depth) (.plain .udp depth 8 [.transport .udp]) (.nothing .silent)
  | udp {depth source destination : Nat} (hsource : u16? rest 0 = some source)
      (hdestination : u16? rest 2 = some destination) :
      Finds rest (.udp depth) (.plain .udp depth 8 [.transport .udp])
        (.nothing (.unclaimed (.ports source destination)))
  | sctp {depth : Nat} :
      Finds rest (.sctp depth) (.plain .sctp depth 12 [.transport .sctp]) (.nothing .silent)
  | gre {depth flags type length : Nat} (hflags : u16? rest 0 = some flags)
      (htype : u16? rest 2 = some type) (hlength : greLength? flags rest = some length) :
      Finds rest (.gre depth) (.plain .gre depth length [.transport .gre])
        (.ofGrePayload depth type)
  | icmp4Echo {depth type : Nat} {kind : HeaderKind} (htype : u8? rest 0 = some type)
      (hkind : (type, kind) ∈ icmp4Echoes) :
      Finds rest (.icmp4 depth) (.plain kind depth 8 [.transport .icmp4]) (.nothing .silent)
  | icmp4 {depth type : Nat} (htype : u8? rest 0 = some type)
      (hother : type ∉ icmp4Echoes.map Prod.fst) :
      Finds rest (.icmp4 depth) (.plain .icmp4 depth 4 [.transport .icmp4]) (.nothing .silent)
  | icmp6Error {depth type : Nat} {kind : HeaderKind} (htype : u8? rest 0 = some type)
      (hkind : (type, kind) ∈ icmp6Errors) :
      Finds rest (.icmp6 depth) (.plain kind depth 8 [.transport .icmp6])
        (.nested depth .quoted)
  | icmp6Echo {depth type : Nat} {kind : HeaderKind} (htype : u8? rest 0 = some type)
      (hkind : (type, kind) ∈ icmp6Echoes) :
      Finds rest (.icmp6 depth) (.plain kind depth 8 [.transport .icmp6]) (.nothing .silent)
  | icmp6Discovery {depth type length : Nat} {kind : HeaderKind}
      (htype : u8? rest 0 = some type) (hkind : (type, kind, length) ∈ icmp6Discoveries) :
      Finds rest (.icmp6 depth)
        ⟨kind, depth, length, [.transport .icmp6], ⟨length, ndEntries (rest.drop length)⟩, none⟩
        (.nothing .silent)
  | icmp6Report {depth : Nat} (htype : u8? rest 0 = some Icmp6Type.listenerReport) :
      Finds rest (.icmp6 depth)
        ⟨.icmp6ListenerReport, depth, 8, [.transport .icmp6], .none,
          some (addressRecords ((u16? rest 6).getD 0) (rest.drop 8))⟩ (.nothing .silent)
  | icmp6 {depth type : Nat} (htype : u8? rest 0 = some type)
      (hother : type ∉ icmp6Types) :
      Finds rest (.icmp6 depth) (.plain .icmp6 depth 4 [.transport .icmp6]) (.nothing .silent)

/-- The move is the end of the chain or to a header that is found. -/
def ChainMove.Found (expected : Expected) (rest : Bytes) : ChainMove → Prop
  | .stop _ => True
  | .take layer span next => span = layer.span ∧ Finds rest expected layer next

section Moves

theorem ethernetMove_found (datalink : Datalink) (rest : Bytes) :
    (ethernetMove datalink rest).Found (.ethernet datalink) rest := by
  unfold ethernetMove
  split
  · exact ⟨rfl, .novellFrame⟩
  · split
    · rename_i hfield
      exact ⟨rfl, .ethernetCut hfield⟩
    · rename_i hfield
      exact ⟨rfl, .ethernet hfield⟩

theorem vlanMove_found (rest : Bytes) : (vlanMove rest).Found .vlan rest := by
  unfold vlanMove
  split
  · rename_i hfield
    exact ⟨rfl, .vlanCut hfield⟩
  · rename_i hfield
    exact ⟨rfl, .vlan hfield⟩

theorem sizedMove_found (rest : Bytes) : (sizedMove rest).Found .sized rest := by
  unfold sizedMove
  split
  · trivial
  · rename_i word hword
    split
    · rename_i hmarker
      exact ⟨rfl, .markedIpx (hmarker ▸ hword)⟩
    · rename_i hother
      split
      · rename_i hdestination hsource hcontrol
        exact ⟨rfl, .llc hword hother hdestination hsource hcontrol⟩
      · trivial

theorem snapMove_found (rest : Bytes) : (snapMove rest).Found .snap rest := by
  unfold snapMove
  refine ⟨rfl, ?_⟩
  split
  · rename_i htype
    exact .snapCut htype
  · rename_i htype
    exact .snap htype

theorem arpMove_found (rest : Bytes) : (arpMove rest).Found .arp rest := by
  unfold arpMove
  split
  · rename_i hhardware hprotocol
    exact ⟨rfl, .arp hhardware hprotocol⟩
  · trivial

theorem stpMove_found (rest : Bytes) : (stpMove rest).Found .stp rest := by
  unfold stpMove
  split
  · trivial
  · rename_i hkind
    split
    · exact ⟨rfl, .stp hkind (by decide)⟩
    · exact ⟨rfl, .stp hkind (by decide)⟩
    · exact ⟨rfl, .stp hkind (by decide)⟩
    · trivial

theorem mplsMove_found (rest : Bytes) : (mplsMove rest).Found .mpls rest := by
  unfold mplsMove
  split
  · trivial
  · rename_i hentry
    exact ⟨rfl, .mpls hentry⟩

theorem ipv4Move_found (depth : Nat) (rest : Bytes) :
    (ipv4Move depth rest).Found (.ipv4 depth) rest := by
  unfold ipv4Move
  split
  · trivial
  · rename_i hbyte
    dsimp only
    split
    · trivial
    · rename_i hversion
      split
      · trivial
      · rename_i hlength
        split
        · rename_i hword hnumber
          exact ⟨rfl, .ipv4 hbyte (Decidable.not_not.mp hversion) (Nat.le_of_not_lt hlength)
            hword hnumber⟩
        · trivial

theorem ipv6Move_found (depth : Nat) (rest : Bytes) :
    (ipv6Move depth rest).Found (.ipv6 depth) rest := by
  unfold ipv6Move
  split
  · trivial
  · rename_i hbyte
    split
    · trivial
    · rename_i hversion
      have hversion := Decidable.not_not.mp hversion
      split
      · trivial
      · rename_i hcode
        refine ⟨rfl, ?_⟩
        split
        · rename_i hverdict
          exact .ipv6Cut hbyte hversion hcode hverdict
        · rename_i hverdict
          exact .ipv6 hbyte hversion hcode hverdict

theorem ChainMove.Found.widen {move : ChainMove} {expected other : Expected} {rest : Bytes}
    (h : move.Found expected rest)
    (hfinds : ∀ {layer next}, Finds rest expected layer next → Finds rest other layer next) :
    move.Found other rest := by
  cases move with
  | stop _ => trivial
  | take layer span next => exact ⟨h.1, hfinds h.2⟩

theorem labelledMove_found (rest : Bytes) : (labelledMove rest).Found .labelled rest := by
  unfold labelledMove
  split
  · trivial
  · rename_i hbyte
    split
    · rename_i hversion
      exact (ipv4Move_found 0 rest).widen (.labelledIpv4 hbyte hversion)
    · rename_i hversion
      exact (ipv6Move_found 0 rest).widen (.labelledIpv6 hbyte hversion)
    · trivial

theorem quotedMove_found (depth : Nat) (rest : Bytes) :
    (quotedMove depth rest).Found (.quoted depth) rest := by
  unfold quotedMove
  split
  · trivial
  · rename_i hbyte
    split
    · rename_i hversion
      exact (ipv4Move_found depth rest).widen (.quotedIpv4 hbyte hversion)
    · rename_i hversion
      exact (ipv6Move_found depth rest).widen (.quotedIpv6 hbyte hversion)
    · trivial

theorem tcpMove_found (depth : Nat) (rest : Bytes) :
    (tcpMove depth rest).Found (.tcp depth) rest := by
  unfold tcpMove
  split
  · trivial
  · rename_i hbyte
    dsimp only
    split
    · trivial
    · rename_i hlength
      exact ⟨rfl, .tcp hbyte (Nat.le_of_not_lt hlength)⟩

theorem udpMove_found (depth : Nat) (rest : Bytes) :
    (udpMove depth rest).Found (.udp depth) rest := by
  unfold udpMove
  refine ⟨rfl, ?_⟩
  split
  · rename_i hsource hdestination
    exact .udp hsource hdestination
  · rename_i hports
    refine .udpCut ?_
    cases hsource : u16? rest 0 with
    | none => exact .inl rfl
    | some source =>
        cases hdestination : u16? rest 2 with
        | none => exact .inr rfl
        | some destination => exact (hports _ _ hsource hdestination).elim

theorem greMove_found (depth : Nat) (rest : Bytes) :
    (greMove depth rest).Found (.gre depth) rest := by
  unfold greMove
  split
  · rename_i hflags htype
    split
    · trivial
    · rename_i hlength
      exact ⟨rfl, .gre hflags htype hlength⟩
  · trivial

theorem icmp4Move_found (depth : Nat) (rest : Bytes) :
    (icmp4Move depth rest).Found (.icmp4 depth) rest := by
  unfold icmp4Move
  split
  · trivial
  · rename_i htype
    dsimp only
    split
    · exact ⟨rfl, .icmp4Echo htype (by decide)⟩
    · exact ⟨rfl, .icmp4Echo htype (by decide)⟩
    · refine ⟨rfl, .icmp4 htype ?_⟩
      simp only [icmp4Echoes, List.map_cons, List.map_nil, List.mem_cons, List.not_mem_nil,
        or_false, not_or]
      and_intros <;> assumption

theorem icmp6Move_found (depth : Nat) (rest : Bytes) :
    (icmp6Move depth rest).Found (.icmp6 depth) rest := by
  unfold icmp6Move
  split
  · trivial
  · rename_i htype
    dsimp only
    split
    case h_10 => exact ⟨rfl, .icmp6Report htype⟩
    case h_11 =>
      refine ⟨rfl, .icmp6 htype ?_⟩
      simp only [icmp6Types, icmp6Errors, icmp6Echoes, icmp6Discoveries, List.map_cons,
        List.map_nil, List.mem_append, List.mem_cons, List.not_mem_nil, or_false, not_or]
      and_intros <;> assumption
    all_goals first
      | exact ⟨rfl, .icmp6Error htype (by decide)⟩
      | exact ⟨rfl, .icmp6Echo htype (by decide)⟩
      | exact ⟨rfl, .icmp6Discovery htype (by decide)⟩

end Moves

theorem chainStep_found (expected : Expected) (rest : Bytes) :
    (chainStep expected rest).Found expected rest := by
  cases expected with
  | ethernet datalink => exact ethernetMove_found datalink rest
  | vlan => exact vlanMove_found rest
  | sized => exact sizedMove_found rest
  | snap => exact snapMove_found rest
  | arp => exact arpMove_found rest
  | ipx => exact ⟨rfl, .ipx⟩
  | stp => exact stpMove_found rest
  | mpls => exact mplsMove_found rest
  | labelled => exact labelledMove_found rest
  | ipv4 depth => exact ipv4Move_found depth rest
  | ipv6 depth => exact ipv6Move_found depth rest
  | quoted depth => exact quotedMove_found depth rest
  | tcp depth => exact tcpMove_found depth rest
  | udp depth => exact udpMove_found depth rest
  | sctp depth => exact ⟨rfl, .sctp⟩
  | gre depth => exact greMove_found depth rest
  | icmp4 depth => exact icmp4Move_found depth rest
  | icmp6 depth => exact icmp6Move_found depth rest
  | nothing ending => trivial

theorem Finds.chainStep_eq {expected next : Expected} {rest : Bytes} {layer : Layer}
    (h : Finds rest expected layer next) : chainStep expected rest = layer.then next := by
  induction h with
  | novellFrame => rfl
  | ethernetCut hfield | ethernet hfield => simp [chainStep, ethernetMove, hfield]
  | vlanCut hfield | vlan hfield => simp [chainStep, vlanMove, hfield]
  | markedIpx hmarker => simp [chainStep, sizedMove, hmarker]
  | llc hword hother hdestination hsource hcontrol =>
      simp [chainStep, sizedMove, hword, hother, hdestination, hsource, hcontrol]
  | snapCut htype | snap htype => simp [chainStep, snapMove, htype]
  | arp hhardware hprotocol => simp [chainStep, arpMove, hhardware, hprotocol]
  | ipx => rfl
  | stp hkind hlength =>
      rw [chainStep, stpMove, hkind]
      simp only [bridgeUnits, List.mem_cons, Prod.mk.injEq, List.not_mem_nil, or_false] at hlength
      rcases hlength with ⟨rfl, rfl⟩ | ⟨rfl, rfl⟩ | ⟨rfl, rfl⟩ <;> rfl
  | mpls hentry => simp [chainStep, mplsMove, hentry]
  | ipv4 hbyte hversion hlength hword hnumber =>
      rw [chainStep, ipv4Move, hbyte]
      dsimp only
      rw [if_neg (not_not_intro hversion), if_neg (Nat.not_lt.mpr hlength), hword, hnumber]
      rfl
  | ipv6Cut hbyte hversion hcode hverdict | ipv6 hbyte hversion hcode hverdict =>
      simp [chainStep, ipv6Move, hbyte, hversion, hcode, hverdict]
  | labelledIpv4 hbyte hversion _ ih | labelledIpv6 hbyte hversion _ ih =>
      rw [chainStep, labelledMove, hbyte]
      dsimp only
      rw [hversion]
      exact ih
  | quotedIpv4 hbyte hversion _ ih | quotedIpv6 hbyte hversion _ ih =>
      rw [chainStep, quotedMove, hbyte]
      dsimp only
      rw [hversion]
      exact ih
  | tcp hbyte hlength => simp [chainStep, tcpMove, hbyte, Nat.not_lt.mpr hlength]
  | udpCut hports =>
      rw [chainStep, udpMove]
      rcases hports with hsource | hdestination
      · rw [hsource]
      · rw [hdestination]
        split <;> first | rfl | contradiction
  | udp hsource hdestination => simp [chainStep, udpMove, hsource, hdestination]
  | sctp => rfl
  | gre hflags htype hlength => simp [chainStep, greMove, hflags, htype, hlength]
  | icmp4Echo htype hkind =>
      rw [chainStep, icmp4Move, htype]
      simp only [icmp4Echoes, List.mem_cons, Prod.mk.injEq, List.not_mem_nil, or_false] at hkind
      rcases hkind with ⟨rfl, rfl⟩ | ⟨rfl, rfl⟩ <;> rfl
  | icmp4 htype hother =>
      rw [chainStep, icmp4Move, htype]
      dsimp only
      split
      · exact absurd (by decide) hother
      · exact absurd (by decide) hother
      · rfl
  | icmp6Error htype hkind =>
      rw [chainStep, icmp6Move, htype]
      simp only [icmp6Errors, List.mem_cons, Prod.mk.injEq, List.not_mem_nil, or_false] at hkind
      rcases hkind with ⟨rfl, rfl⟩ | ⟨rfl, rfl⟩ | ⟨rfl, rfl⟩ <;> rfl
  | icmp6Echo htype hkind =>
      rw [chainStep, icmp6Move, htype]
      simp only [icmp6Echoes, List.mem_cons, Prod.mk.injEq, List.not_mem_nil, or_false] at hkind
      rcases hkind with ⟨rfl, rfl⟩ | ⟨rfl, rfl⟩ <;> rfl
  | icmp6Discovery htype hkind =>
      rw [chainStep, icmp6Move, htype]
      simp only [icmp6Discoveries, List.mem_cons, Prod.mk.injEq, List.not_mem_nil,
        or_false] at hkind
      rcases hkind with ⟨rfl, rfl, rfl⟩ | ⟨rfl, rfl, rfl⟩ | ⟨rfl, rfl, rfl⟩ | ⟨rfl, rfl, rfl⟩ <;>
        rfl
  | icmp6Report htype =>
      rw [chainStep, icmp6Move, htype]
      rfl
  | icmp6 htype hother =>
      rw [chainStep, icmp6Move, htype]
      dsimp only
      split
      case h_11 => rfl
      all_goals exact absurd (by decide) hother

/-- The moves along a chain are those to a header that is found. -/
theorem chainStep_eq_take_iff {expected next : Expected} {rest : Bytes} {layer : Layer}
    {span : Nat} : chainStep expected rest = .take layer span next ↔
      span = layer.span ∧ Finds rest expected layer next := by
  constructor
  · intro h
    have hfound := chainStep_found expected rest
    rwa [h] at hfound
  · rintro ⟨rfl, h⟩
    exact h.chainStep_eq

theorem Scans.of_nothing {ending : Ending} {rest : Bytes} {found : Scanned Layer Ending}
    (h : Scans chainStep .silent (.nothing ending) rest found) : found = ⟨[], ending⟩ := by
  cases h with
  | stop hmove =>
      cases hmove
      rfl
  | last hmove _ => cases hmove
  | take hmove _ _ => cases hmove

theorem Scans.items_eq_nil_of_nothing {ending : Ending} {rest : Bytes}
    {found : Scanned Layer Ending}
    (h : Scans chainStep .silent (.nothing ending) rest found) : found.items = [] := by
  rw [h.of_nothing]

end Dissection

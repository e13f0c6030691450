import Dissection.Protocol.Id

namespace Dissection

/-- A header that the dissector recognizes by itself. -/
inductive HeaderKind where
  | ethernet
  | llc
  | snap
  | vlan
  | mpls
  | arp
  | ipx
  | stp
  | ipv4
  | ipv6
  | tcp
  | udp
  | sctp
  | gre
  | icmp4
  | icmp4EchoRequest
  | icmp4EchoReply
  | icmp6
  | icmp6EchoRequest
  | icmp6EchoReply
  | icmp6DestinationUnreachable
  | icmp6TimeExceeded
  | icmp6ParameterProblem
  | icmp6RouterSolicitation
  | icmp6RouterAdvertisement
  | icmp6NeighborSolicitation
  | icmp6NeighborAdvertisement
  | icmp6ListenerReport
  deriving DecidableEq, Repr, Inhabited

namespace HeaderKind

def all : List HeaderKind :=
  [.ethernet, .llc, .snap, .vlan, .mpls, .arp, .ipx, .stp, .ipv4, .ipv6, .tcp, .udp,
    .sctp, .gre, .icmp4, .icmp4EchoRequest, .icmp4EchoReply, .icmp6, .icmp6EchoRequest,
    .icmp6EchoReply, .icmp6DestinationUnreachable, .icmp6TimeExceeded,
    .icmp6ParameterProblem, .icmp6RouterSolicitation, .icmp6RouterAdvertisement,
    .icmp6NeighborSolicitation, .icmp6NeighborAdvertisement, .icmp6ListenerReport]

def ordinal : HeaderKind → UInt8
  | .ethernet => 0
  | .llc => 1
  | .snap => 2
  | .vlan => 3
  | .mpls => 4
  | .arp => 5
  | .ipx => 6
  | .stp => 7
  | .ipv4 => 8
  | .ipv6 => 9
  | .tcp => 10
  | .udp => 11
  | .sctp => 12
  | .gre => 13
  | .icmp4 => 14
  | .icmp4EchoRequest => 15
  | .icmp4EchoReply => 16
  | .icmp6 => 17
  | .icmp6EchoRequest => 18
  | .icmp6EchoReply => 19
  | .icmp6DestinationUnreachable => 20
  | .icmp6TimeExceeded => 21
  | .icmp6ParameterProblem => 22
  | .icmp6RouterSolicitation => 23
  | .icmp6RouterAdvertisement => 24
  | .icmp6NeighborSolicitation => 25
  | .icmp6NeighborAdvertisement => 26
  | .icmp6ListenerReport => 27

def name : HeaderKind → String
  | .ethernet => "ethernet"
  | .llc => "llc"
  | .snap => "snap"
  | .vlan => "vlan"
  | .mpls => "mpls"
  | .arp => "arp"
  | .ipx => "ipx"
  | .stp => "stp"
  | .ipv4 => "ipv4"
  | .ipv6 => "ipv6"
  | .tcp => "tcp"
  | .udp => "udp"
  | .sctp => "sctp"
  | .gre => "gre"
  | .icmp4 => "icmp4"
  | .icmp4EchoRequest => "icmp4_echo_request"
  | .icmp4EchoReply => "icmp4_echo_reply"
  | .icmp6 => "icmp6"
  | .icmp6EchoRequest => "icmp6_echo_request"
  | .icmp6EchoReply => "icmp6_echo_reply"
  | .icmp6DestinationUnreachable => "icmp6_destination_unreachable"
  | .icmp6TimeExceeded => "icmp6_time_exceeded"
  | .icmp6ParameterProblem => "icmp6_parameter_problem"
  | .icmp6RouterSolicitation => "icmp6_router_solicitation"
  | .icmp6RouterAdvertisement => "icmp6_router_advertisement"
  | .icmp6NeighborSolicitation => "icmp6_neighbor_solicitation"
  | .icmp6NeighborAdvertisement => "icmp6_neighbor_advertisement"
  | .icmp6ListenerReport => "icmp6_multicast_listener_report_v2"

def ofName? (name : String) : Option HeaderKind :=
  all.find? fun kind => kind.name == name

def id (kind : HeaderKind) : ProtocolId :=
  .ofPack .core kind.ordinal

def mask (kind : HeaderKind) : UInt64 :=
  1 <<< kind.ordinal.toUInt64

@[simp] theorem id_inj {kind other : HeaderKind} : kind.id = other.id ↔ kind = other := by
  constructor
  · cases kind <;> cases other <;> decide
  · rintro rfl
    rfl

@[simp] theorem isCore_id (kind : HeaderKind) : kind.id.isCore = true := by
  cases kind <;> decide

end HeaderKind

end Dissection

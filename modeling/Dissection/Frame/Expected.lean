import Dissection.Frame.Layer
import Dissection.Protocol.Number

namespace Dissection

/-- What is expected at the end of the headers found so far. A network or
transport header is expected at a depth, the count of IP headers it is nested
in. -/
inductive Expected where
  | ethernet (datalink : Datalink)
  | vlan
  /-- What follows an 802.3 length field. -/
  | sized
  | snap
  | arp
  | ipx
  | stp
  | mpls
  /-- What follows the bottom of a label stack. -/
  | labelled
  | ipv4 (depth : Nat)
  | ipv6 (depth : Nat)
  /-- The packet that an error message quotes. -/
  | quoted (depth : Nat)
  | tcp (depth : Nat)
  | udp (depth : Nat)
  | sctp (depth : Nat)
  | gre (depth : Nat)
  | icmp4 (depth : Nat)
  | icmp6 (depth : Nat)
  /-- Nothing more. -/
  | nothing (ending : Ending)
  deriving DecidableEq, Repr

namespace Expected

/-- The depth at which no IP header is entered any more. -/
def nestingLimit : Nat := 4

/-- What is expected inside a packet at a depth, if nesting goes that deep. -/
def nested (depth : Nat) (inside : Nat → Expected) : Expected :=
  if depth + 1 < nestingLimit then inside (depth + 1)
  else .nothing (.remark (.nestingLimit (depth + 1)))

def ofEtherType (etherType : Nat) : Expected :=
  match etherType with
  | EtherType.ipv4 => .ipv4 0
  | EtherType.ipv6 => .ipv6 0
  | EtherType.arp => .arp
  | EtherType.reverseArp => .arp
  | EtherType.mplsUnicast => .mpls
  | EtherType.mplsMulticast => .mpls
  | EtherType.ipx => .ipx
  | _ => .nothing (.unclaimed (.etherType etherType))

/-- What the type field of an Ethernet header or a VLAN tag announces. Only there
may it announce a tag or give a length. -/
def ofTypeField (field : Nat) : Expected :=
  if EtherType.isTag field then .vlan
  else if field < EtherType.least then .sized
  else ofEtherType field

/-- What an IP protocol number announces in a packet at a depth. -/
def ofIpNumber (depth number : Nat) : Expected :=
  match number with
  | IpNumber.tcp => .tcp depth
  | IpNumber.udp => .udp depth
  | IpNumber.icmp4 => .icmp4 depth
  | IpNumber.icmp6 => .icmp6 depth
  | IpNumber.sctp => .sctp depth
  | IpNumber.gre => .gre depth
  | IpNumber.ipv4 => nested depth .ipv4
  | IpNumber.ipv6 => nested depth .ipv6
  | IpNumber.noNextHeader => .nothing .silent
  | _ => .nothing (.unclaimed (.ipNumber number))

def ofGrePayload (depth etherType : Nat) : Expected :=
  match etherType with
  | EtherType.ipv4 => nested depth .ipv4
  | EtherType.ipv6 => nested depth .ipv6
  | _ => .nothing (.remark (.unknownGrePayload etherType))

/-- What the two service access points and the control field of an LLC header
announce. -/
def ofServicePoints (destination source control : Nat) : Expected :=
  match destination, source, control with
  | ServicePoint.snap, ServicePoint.snap, 0x03 => .snap
  | ServicePoint.ipx, ServicePoint.ipx, _ => .ipx
  | ServicePoint.spanningTree, ServicePoint.spanningTree, _ => .stp
  | _, _, _ => .nothing (.remark (.unknownServicePoints destination source))

end Expected

abbrev ChainMove := Move Expected Layer Ending

def Layer.then (layer : Layer) (next : Expected) : ChainMove :=
  .take layer layer.span next

@[simp] theorem Layer.advances_then (layer : Layer) (next : Expected) :
    (layer.then next).Advances ↔ 0 < layer.span :=
  Iff.rfl

end Dissection

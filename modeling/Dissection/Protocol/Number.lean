namespace Dissection

namespace EtherType

/-- Below this a type field is an 802.3 payload length. -/
def least : Nat := 0x0600

@[match_pattern] def ipv4 : Nat := 0x0800
@[match_pattern] def arp : Nat := 0x0806
@[match_pattern] def reverseArp : Nat := 0x8035
@[match_pattern] def vlan : Nat := 0x8100
@[match_pattern] def ipx : Nat := 0x8137
@[match_pattern] def ipv6 : Nat := 0x86DD
@[match_pattern] def mplsUnicast : Nat := 0x8847
@[match_pattern] def mplsMulticast : Nat := 0x8848
@[match_pattern] def serviceVlan : Nat := 0x88A8
@[match_pattern] def doubleVlan : Nat := 0x9100

def isTag (etherType : Nat) : Bool :=
  etherType = vlan || etherType = serviceVlan || etherType = doubleVlan

end EtherType

namespace ServicePoint

@[match_pattern] def spanningTree : Nat := 0x42
@[match_pattern] def snap : Nat := 0xAA
@[match_pattern] def ipx : Nat := 0xE0

end ServicePoint

namespace BridgeUnit

@[match_pattern] def configuration : Nat := 0x00
@[match_pattern] def rapid : Nat := 0x02
@[match_pattern] def topologyChange : Nat := 0x80

end BridgeUnit

namespace IpNumber

@[match_pattern] def icmp4 : Nat := 1
@[match_pattern] def ipv4 : Nat := 4
@[match_pattern] def tcp : Nat := 6
@[match_pattern] def udp : Nat := 17
@[match_pattern] def ipv6 : Nat := 41
@[match_pattern] def gre : Nat := 47
@[match_pattern] def icmp6 : Nat := 58
@[match_pattern] def noNextHeader : Nat := 59
@[match_pattern] def sctp : Nat := 132

end IpNumber

namespace Icmp4Type

@[match_pattern] def echoReply : Nat := 0
@[match_pattern] def echoRequest : Nat := 8

end Icmp4Type

namespace Icmp6Type

@[match_pattern] def destinationUnreachable : Nat := 1
@[match_pattern] def timeExceeded : Nat := 3
@[match_pattern] def parameterProblem : Nat := 4
@[match_pattern] def echoRequest : Nat := 128
@[match_pattern] def echoReply : Nat := 129
@[match_pattern] def routerSolicitation : Nat := 133
@[match_pattern] def routerAdvertisement : Nat := 134
@[match_pattern] def neighborSolicitation : Nat := 135
@[match_pattern] def neighborAdvertisement : Nat := 136
@[match_pattern] def listenerReport : Nat := 143

end Icmp6Type

end Dissection

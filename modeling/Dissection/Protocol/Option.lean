import Dissection.Protocol.Id

namespace Dissection

/-- An IPv4 option. -/
inductive Ipv4Option where
  | endOfList
  | nop
  | recordRoute
  | mtuProbe
  | mtuReply
  | timestamp
  | traceroute
  | security
  | looseSourceRoute
  | extendedSecurity
  | cipso
  | streamId
  | strictSourceRoute
  | routerAlert
  deriving DecidableEq, Repr

namespace Ipv4Option

def all : List Ipv4Option :=
  [.endOfList, .nop, .recordRoute, .mtuProbe, .mtuReply, .timestamp, .traceroute,
    .security, .looseSourceRoute, .extendedSecurity, .cipso, .streamId,
    .strictSourceRoute, .routerAlert]

def ordinal : Ipv4Option → UInt8
  | .endOfList => 0
  | .nop => 1
  | .recordRoute => 2
  | .mtuProbe => 3
  | .mtuReply => 4
  | .timestamp => 5
  | .traceroute => 6
  | .security => 7
  | .looseSourceRoute => 8
  | .extendedSecurity => 9
  | .cipso => 10
  | .streamId => 11
  | .strictSourceRoute => 12
  | .routerAlert => 13

/-- The type octet of an option: copied flag, class and number. -/
def code : Ipv4Option → Nat
  | .endOfList => 0
  | .nop => 1
  | .recordRoute => 7
  | .mtuProbe => 11
  | .mtuReply => 12
  | .timestamp => 68
  | .traceroute => 82
  | .security => 130
  | .looseSourceRoute => 131
  | .extendedSecurity => 133
  | .cipso => 134
  | .streamId => 136
  | .strictSourceRoute => 137
  | .routerAlert => 148

def name : Ipv4Option → String
  | .endOfList => "end_of_list"
  | .nop => "nop"
  | .recordRoute => "record_route"
  | .mtuProbe => "mtu_probe"
  | .mtuReply => "mtu_reply"
  | .timestamp => "timestamp"
  | .traceroute => "traceroute"
  | .security => "security"
  | .looseSourceRoute => "loose_source_route"
  | .extendedSecurity => "extended_security"
  | .cipso => "cipso"
  | .streamId => "stream_id"
  | .strictSourceRoute => "strict_source_route"
  | .routerAlert => "router_alert"

def ofCode? (code : Nat) : Option Ipv4Option :=
  all.find? fun option => option.code == code

def id (option : Ipv4Option) : ProtocolId :=
  .ofPack .ipv4Option option.ordinal

end Ipv4Option

/-- An IPv6 extension header. -/
inductive ExtensionHeader where
  | hopByHop
  | routing
  | fragment
  | destinationOptions
  | authentication
  | encapsulatingSecurityPayload
  | mobility
  | hostIdentity
  | shim6
  deriving DecidableEq, Repr

namespace ExtensionHeader

def all : List ExtensionHeader :=
  [.hopByHop, .routing, .fragment, .destinationOptions, .authentication,
    .encapsulatingSecurityPayload, .mobility, .hostIdentity, .shim6]

def ordinal : ExtensionHeader → UInt8
  | .hopByHop => 0
  | .routing => 1
  | .fragment => 2
  | .destinationOptions => 3
  | .authentication => 4
  | .encapsulatingSecurityPayload => 5
  | .mobility => 6
  | .hostIdentity => 7
  | .shim6 => 8

def code : ExtensionHeader → Nat
  | .hopByHop => 0
  | .routing => 43
  | .fragment => 44
  | .destinationOptions => 60
  | .authentication => 51
  | .encapsulatingSecurityPayload => 50
  | .mobility => 135
  | .hostIdentity => 139
  | .shim6 => 140

def name : ExtensionHeader → String
  | .hopByHop => "hop_by_hop"
  | .routing => "routing"
  | .fragment => "fragment"
  | .destinationOptions => "destination_options"
  | .authentication => "authentication"
  | .encapsulatingSecurityPayload => "encapsulating_security_payload"
  | .mobility => "mobility"
  | .hostIdentity => "host_identity"
  | .shim6 => "shim6"

def ofCode? (code : Nat) : Option ExtensionHeader :=
  all.find? fun header => header.code == code

def id (header : ExtensionHeader) : ProtocolId :=
  .ofPack .ipv6Option header.ordinal

end ExtensionHeader

/-- An option of a Hop-by-Hop header. -/
inductive HopByHopOption where
  | pad1
  | padN
  | tunnelEncapsulationLimit
  | routerAlert
  | calipso
  | quickStart
  | jumboPayload
  deriving DecidableEq, Repr

namespace HopByHopOption

def all : List HopByHopOption :=
  [.pad1, .padN, .tunnelEncapsulationLimit, .routerAlert, .calipso, .quickStart,
    .jumboPayload]

/-- The number of an option within its pack, which it shares with the extension
headers. -/
def ordinal : HopByHopOption → UInt8
  | .pad1 => 32
  | .padN => 33
  | .tunnelEncapsulationLimit => 34
  | .routerAlert => 35
  | .calipso => 36
  | .quickStart => 37
  | .jumboPayload => 38

def code : HopByHopOption → Nat
  | .pad1 => 0x00
  | .padN => 0x01
  | .tunnelEncapsulationLimit => 0x04
  | .routerAlert => 0x05
  | .calipso => 0x07
  | .quickStart => 0x26
  | .jumboPayload => 0xC2

def name : HopByHopOption → String
  | .pad1 => "pad1"
  | .padN => "pad_n"
  | .tunnelEncapsulationLimit => "tunnel_encap_limit"
  | .routerAlert => "router_alert"
  | .calipso => "calipso"
  | .quickStart => "quick_start"
  | .jumboPayload => "jumbo_payload"

def ofCode? (code : Nat) : Option HopByHopOption :=
  all.find? fun option => option.code == code

def id (option : HopByHopOption) : ProtocolId :=
  .ofPack .ipv6Option option.ordinal

end HopByHopOption

/-- A TCP option. -/
inductive TcpOption where
  | endOfList
  | nop
  | maximumSegmentSize
  | windowScale
  | sackPermitted
  | sack
  | timestamp
  | fastOpen
  deriving DecidableEq, Repr

namespace TcpOption

def all : List TcpOption :=
  [.endOfList, .nop, .maximumSegmentSize, .windowScale, .sackPermitted, .sack,
    .timestamp, .fastOpen]

def ordinal : TcpOption → UInt8
  | .endOfList => 0
  | .nop => 1
  | .maximumSegmentSize => 2
  | .windowScale => 3
  | .sackPermitted => 4
  | .sack => 5
  | .timestamp => 6
  | .fastOpen => 7

def code : TcpOption → Nat
  | .endOfList => 0
  | .nop => 1
  | .maximumSegmentSize => 2
  | .windowScale => 3
  | .sackPermitted => 4
  | .sack => 5
  | .timestamp => 8
  | .fastOpen => 34

def name : TcpOption → String
  | .endOfList => "end_of_list"
  | .nop => "nop"
  | .maximumSegmentSize => "mss"
  | .windowScale => "window_scale"
  | .sackPermitted => "sack_permitted"
  | .sack => "sack"
  | .timestamp => "timestamp"
  | .fastOpen => "fast_open"

def ofCode? (code : Nat) : Option TcpOption :=
  all.find? fun option => option.code == code

def id (option : TcpOption) : ProtocolId :=
  .ofPack .tcpOption option.ordinal

end TcpOption

/-- A Neighbor-Discovery option. -/
inductive NdOption where
  | sourceLinkLayerAddress
  | targetLinkLayerAddress
  | prefixInformation
  | redirectedHeader
  | mtu
  | routeInformation
  | recursiveDnsServer
  | dnsSearchList
  deriving DecidableEq, Repr

namespace NdOption

def all : List NdOption :=
  [.sourceLinkLayerAddress, .targetLinkLayerAddress, .prefixInformation,
    .redirectedHeader, .mtu, .routeInformation, .recursiveDnsServer, .dnsSearchList]

def ordinal : NdOption → UInt8
  | .sourceLinkLayerAddress => 0
  | .targetLinkLayerAddress => 1
  | .prefixInformation => 2
  | .redirectedHeader => 3
  | .mtu => 4
  | .routeInformation => 5
  | .recursiveDnsServer => 6
  | .dnsSearchList => 7

def code : NdOption → Nat
  | .sourceLinkLayerAddress => 1
  | .targetLinkLayerAddress => 2
  | .prefixInformation => 3
  | .redirectedHeader => 4
  | .mtu => 5
  | .routeInformation => 24
  | .recursiveDnsServer => 25
  | .dnsSearchList => 31

def name : NdOption → String
  | .sourceLinkLayerAddress => "source_link_layer_address"
  | .targetLinkLayerAddress => "target_link_layer_address"
  | .prefixInformation => "prefix_information"
  | .redirectedHeader => "redirected_header"
  | .mtu => "mtu"
  | .routeInformation => "route_information"
  | .recursiveDnsServer => "recursive_dns_server"
  | .dnsSearchList => "dns_search_list"

def ofCode? (code : Nat) : Option NdOption :=
  all.find? fun option => option.code == code

def id (option : NdOption) : ProtocolId :=
  .ofPack .icmp6Option option.ordinal

end NdOption

/-- The kind of a multicast address record in a listener report. A record whose
type octet is not assigned is of kind `other`. -/
inductive AddressRecord where
  | other
  | modeIsInclude
  | modeIsExclude
  | changeToInclude
  | changeToExclude
  | allowNewSources
  | blockOldSources
  deriving DecidableEq, Repr

namespace AddressRecord

def all : List AddressRecord :=
  [.other, .modeIsInclude, .modeIsExclude, .changeToInclude, .changeToExclude,
    .allowNewSources, .blockOldSources]

/-- The number of a kind within its pack, which it shares with the
Neighbor-Discovery options. -/
def ordinal : AddressRecord → UInt8
  | .other => 32
  | .modeIsInclude => 33
  | .modeIsExclude => 34
  | .changeToInclude => 35
  | .changeToExclude => 36
  | .allowNewSources => 37
  | .blockOldSources => 38

def name : AddressRecord → String
  | .other => "mcast_address_record"
  | .modeIsInclude => "mode_is_include"
  | .modeIsExclude => "mode_is_exclude"
  | .changeToInclude => "change_to_include"
  | .changeToExclude => "change_to_exclude"
  | .allowNewSources => "allow_new_sources"
  | .blockOldSources => "block_old_sources"

def ofCode (code : Nat) : AddressRecord :=
  match code with
  | 1 => .modeIsInclude
  | 2 => .modeIsExclude
  | 3 => .changeToInclude
  | 4 => .changeToExclude
  | 5 => .allowNewSources
  | 6 => .blockOldSources
  | _ => .other

def id (record : AddressRecord) : ProtocolId :=
  .ofPack .icmp6Option record.ordinal

end AddressRecord

end Dissection

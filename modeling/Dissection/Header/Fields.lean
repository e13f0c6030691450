import Dissection.Header.Bound
import Dissection.Protocol.Number

namespace Dissection

namespace Address

def hardware (bytes : Bytes) : String :=
  ":".intercalate (bytes.map fun byte => Hex.number 2 byte.toNat)

def ipv4 (bytes : Bytes) : String :=
  ".".intercalate (bytes.map fun byte => toString byte.toNat)

def groups : Bytes → List Nat
  | high :: low :: rest => (high.toNat * 256 + low.toNat) :: groups rest
  | _ => []

def leadingZeros (groups : List Nat) : Nat :=
  (groups.takeWhile (· == 0)).length

/-- Where the first longest row of zero groups begins, and its length. -/
def longestZeros (groups : List Nat) : Nat × Nat :=
  (List.range groups.length).foldl
    (fun best start =>
      let length := leadingZeros (groups.drop start)
      if best.2 < length then (start, length) else best)
    (0, 0)

def joined (groups : List Nat) : String :=
  ":".intercalate (groups.map (Hex.number 1))

def compressed (groups : List Nat) : String :=
  let (start, length) := longestZeros groups
  if 1 < length then
    joined (groups.take start) ++ "::" ++ joined (groups.drop (start + length))
  else
    joined groups

def ipv6 (bytes : Bytes) : String :=
  let groups := groups bytes
  if groups.take 6 = [0, 0, 0, 0, 0, 0xFFFF] then "::ffff:" ++ ipv4 (bytes.drop 12)
  else compressed groups

end Address

/-- An Ethernet II or 802.3 header. VLAN tags are headers of their own. -/
abbrev EthernetHeader := Bound .ethernet

namespace EthernetHeader

def destination (header : EthernetHeader) : String :=
  Address.hardware (header.slice 0 6)

def source (header : EthernetHeader) : String :=
  Address.hardware (header.slice 6 6)

def typeField (header : EthernetHeader) : Nat :=
  header.word16 12 (by decide)

/-- Whether the type field holds the length of an 802.3 payload. -/
def isSized (header : EthernetHeader) : Bool :=
  header.typeField < EtherType.least

end EthernetHeader

abbrev Ipv4Header := Bound .ipv4

namespace Ipv4Header

def version (header : Ipv4Header) : Nat :=
  header.word8 0 (by decide) / 16

/-- The length of the header in words of four bytes. -/
def headerWords (header : Ipv4Header) : Nat :=
  header.word8 0 (by decide) % 16

def services (header : Ipv4Header) : Nat :=
  header.word8 1 (by decide)

def totalLength (header : Ipv4Header) : Nat :=
  header.word16 2 (by decide)

def identification (header : Ipv4Header) : Nat :=
  header.word16 4 (by decide)

def fragmentField (header : Ipv4Header) : Nat :=
  header.word16 6 (by decide)

def dontFragment (header : Ipv4Header) : Bool :=
  header.fragmentField.testBit 14

def moreFragments (header : Ipv4Header) : Bool :=
  header.fragmentField.testBit 13

def fragmentOffset (header : Ipv4Header) : Nat :=
  header.fragmentField % 8192

def timeToLive (header : Ipv4Header) : Nat :=
  header.word8 8 (by decide)

def protocol (header : Ipv4Header) : Nat :=
  header.word8 9 (by decide)

def checksum (header : Ipv4Header) : Nat :=
  header.word16 10 (by decide)

def source (header : Ipv4Header) : String :=
  Address.ipv4 (header.slice 12 4)

def destination (header : Ipv4Header) : String :=
  Address.ipv4 (header.slice 16 4)

end Ipv4Header

abbrev Ipv6Header := Bound .ipv6

namespace Ipv6Header

def version (header : Ipv6Header) : Nat :=
  header.word8 0 (by decide) / 16

def flowField (header : Ipv6Header) : Nat :=
  header.word32 0 (by decide)

def trafficClass (header : Ipv6Header) : Nat :=
  header.flowField / 0x100000 % 256

def flowLabel (header : Ipv6Header) : Nat :=
  header.flowField % 0x100000

def payloadLength (header : Ipv6Header) : Nat :=
  header.word16 4 (by decide)

def nextHeader (header : Ipv6Header) : Nat :=
  header.word8 6 (by decide)

def hopLimit (header : Ipv6Header) : Nat :=
  header.word8 7 (by decide)

def source (header : Ipv6Header) : String :=
  Address.ipv6 (header.slice 8 16)

def destination (header : Ipv6Header) : String :=
  Address.ipv6 (header.slice 24 16)

end Ipv6Header

abbrev TcpHeader := Bound .tcp

namespace TcpHeader

def sourcePort (header : TcpHeader) : Nat :=
  header.word16 0 (by decide)

def destinationPort (header : TcpHeader) : Nat :=
  header.word16 2 (by decide)

def sequenceNumber (header : TcpHeader) : Nat :=
  header.word32 4 (by decide)

def acknowledgmentNumber (header : TcpHeader) : Nat :=
  header.word32 8 (by decide)

/-- The length of the header in words of four bytes. -/
def dataOffset (header : TcpHeader) : Nat :=
  header.word8 12 (by decide) / 16

def flags (header : TcpHeader) : Nat :=
  header.word8 13 (by decide)

def window (header : TcpHeader) : Nat :=
  header.word16 14 (by decide)

def checksum (header : TcpHeader) : Nat :=
  header.word16 16 (by decide)

def urgentPointer (header : TcpHeader) : Nat :=
  header.word16 18 (by decide)

def isFin (header : TcpHeader) : Bool :=
  header.flags.testBit 0

def isSyn (header : TcpHeader) : Bool :=
  header.flags.testBit 1

def isRst (header : TcpHeader) : Bool :=
  header.flags.testBit 2

def isAck (header : TcpHeader) : Bool :=
  header.flags.testBit 4

def isSynAck (header : TcpHeader) : Bool :=
  header.isSyn && header.isAck

end TcpHeader

abbrev UdpHeader := Bound .udp

namespace UdpHeader

def sourcePort (header : UdpHeader) : Nat :=
  header.word16 0 (by decide)

def destinationPort (header : UdpHeader) : Nat :=
  header.word16 2 (by decide)

def datagramLength (header : UdpHeader) : Nat :=
  header.word16 4 (by decide)

def checksum (header : UdpHeader) : Nat :=
  header.word16 6 (by decide)

end UdpHeader

end Dissection

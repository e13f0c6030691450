namespace Dissection

/-- The framing of the link layer that a capture source delivers. -/
inductive Datalink where
  /-- Ethernet II, with 802.3 told apart by its type field. -/
  | ethernet
  /-- An 802.3 header with an IPX header right behind it. -/
  | novellRaw
  deriving DecidableEq, Repr, Inhabited

/-- The framing found in a frame. -/
inductive LinkType where
  | unknown
  | ether
  | llc
  | snap
  | novellRaw
  deriving DecidableEq, Repr, Inhabited

namespace LinkType

def code : LinkType → UInt8
  | .unknown => 0
  | .ether => 1
  | .llc => 2
  | .snap => 3
  | .novellRaw => 4

/-- The framing with a code; a code that is not assigned means it is unknown. -/
def ofCode (code : UInt8) : LinkType :=
  match code.toNat with
  | 1 => .ether
  | 2 => .llc
  | 3 => .snap
  | 4 => .novellRaw
  | _ => .unknown

@[simp] theorem ofCode_code (type : LinkType) : ofCode type.code = type := by
  cases type <;> rfl

end LinkType

/-- The outermost network protocol. -/
inductive NetworkType where
  | none
  | ipv4
  | ipv6
  deriving DecidableEq, Repr, Inhabited

namespace NetworkType

def code : NetworkType → UInt8
  | .none => 0
  | .ipv4 => 1
  | .ipv6 => 2

/-- The network protocol with a code; a code that is not assigned means none. -/
def ofCode (code : UInt8) : NetworkType :=
  match code.toNat with
  | 1 => .ipv4
  | 2 => .ipv6
  | _ => .none

@[simp] theorem ofCode_code (type : NetworkType) : ofCode type.code = type := by
  cases type <;> rfl

end NetworkType

/-- The transport protocol of the outermost packet. -/
inductive TransportType where
  | none
  | tcp
  | udp
  | sctp
  | icmp4
  | icmp6
  | gre
  deriving DecidableEq, Repr, Inhabited

namespace TransportType

def code : TransportType → UInt8
  | .none => 0
  | .tcp => 1
  | .udp => 2
  | .sctp => 3
  | .icmp4 => 4
  | .icmp6 => 5
  | .gre => 6

/-- The transport protocol with a code; a code that is not assigned means none. -/
def ofCode (code : UInt8) : TransportType :=
  match code.toNat with
  | 1 => .tcp
  | 2 => .udp
  | 3 => .sctp
  | 4 => .icmp4
  | 5 => .icmp6
  | 6 => .gre
  | _ => .none

@[simp] theorem ofCode_code (type : TransportType) : ofCode type.code = type := by
  cases type <;> rfl

end TransportType

/-- What a header says of the fragment it belongs to. -/
structure Fragment where
  /-- Whether more fragments follow. -/
  more : Bool
  /-- Where the fragment lies in its packet, in units of eight bytes. -/
  offset : Nat
  deriving DecidableEq, Repr

/-- The fragment bits of a frame. All eight bits of a byte are kept. -/
structure FragmentFlags where
  bits : UInt8
  deriving DecidableEq, Repr, Inhabited

namespace FragmentFlags

def none : FragmentFlags :=
  ⟨0⟩

def isFragment (flags : FragmentFlags) : Bool :=
  flags.bits &&& 1 != 0

def isLast (flags : FragmentFlags) : Bool :=
  flags.bits &&& 2 != 0

/-- Sets the bits that a fragment calls for: the first for every fragment of a
packet in several, the second for the last of them. -/
def add (flags : FragmentFlags) (fragment : Fragment) : FragmentFlags :=
  let first : UInt8 := if fragment.more || 0 < fragment.offset then 1 else 0
  let last : UInt8 := if !fragment.more && 0 < fragment.offset then 2 else 0
  ⟨flags.bits ||| first ||| last⟩

end FragmentFlags

/-- A fact about a frame that a header establishes. -/
inductive Mark where
  | link (type : LinkType)
  | network (type : NetworkType)
  | transport (type : TransportType)
  | vlan
  | mpls
  | fragment (fragment : Fragment)
  deriving DecidableEq, Repr

/-- What is known of a frame as a whole. -/
structure Summary where
  link : LinkType
  network : NetworkType
  transport : TransportType
  /-- The count of VLAN tags. -/
  vlans : Nat
  /-- The count of MPLS label stack entries. -/
  labels : Nat
  fragment : FragmentFlags
  deriving DecidableEq, Repr

namespace Summary

def blank : Summary :=
  ⟨.unknown, .none, .none, 0, 0, .none⟩

def add (summary : Summary) : Mark → Summary
  | .link type => { summary with link := type }
  | .network type => { summary with network := type }
  | .transport type => { summary with transport := type }
  | .vlan => { summary with vlans := summary.vlans + 1 }
  | .mpls => { summary with labels := summary.labels + 1 }
  | .fragment fragment => { summary with fragment := summary.fragment.add fragment }

def addAll (summary : Summary) (marks : List Mark) : Summary :=
  marks.foldl add summary

end Summary

end Dissection

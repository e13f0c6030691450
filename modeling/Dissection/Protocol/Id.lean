namespace Dissection

/-- A family of protocols. -/
inductive Pack where
  | core
  | ipv4Option
  | ipv6Option
  | tcpOption
  | icmp6Option
  deriving DecidableEq, Repr, Inhabited

namespace Pack

def all : List Pack :=
  [.core, .ipv4Option, .ipv6Option, .tcpOption, .icmp6Option]

def ordinal : Pack → UInt8
  | .core => 0
  | .ipv4Option => 1
  | .ipv6Option => 2
  | .tcpOption => 3
  | .icmp6Option => 4

def ofOrdinal? (ordinal : UInt8) : Option Pack :=
  all.find? fun pack => pack.ordinal == ordinal

def name : Pack → String
  | .core => "core"
  | .ipv4Option => "ip4_option"
  | .ipv6Option => "ip6_option"
  | .tcpOption => "tcp_option"
  | .icmp6Option => "icmp6_option"

theorem ofOrdinal?_ordinal (pack : Pack) : ofOrdinal? pack.ordinal = some pack := by
  cases pack <;> decide

theorem ofOrdinal?_eq_some_iff (number : UInt8) (pack : Pack) :
    ofOrdinal? number = some pack ↔ pack.ordinal = number := by
  constructor
  · intro h
    simpa using List.find?_some h
  · rintro rfl
    exact ofOrdinal?_ordinal pack

end Pack

/-- Identifies one kind of header or option that a record may stand for. -/
structure ProtocolId where
  raw : UInt32
  deriving DecidableEq, Repr, Inhabited

namespace ProtocolId

def ofPack (pack : Pack) (ordinal : UInt8) : ProtocolId :=
  ⟨pack.ordinal.toUInt32 * 256 + ordinal.toUInt32⟩

def packOrdinal (id : ProtocolId) : UInt8 :=
  (id.raw / 256).toUInt8

def pack? (id : ProtocolId) : Option Pack :=
  Pack.ofOrdinal? id.packOrdinal

def ordinal (id : ProtocolId) : UInt8 :=
  id.raw.toUInt8

/-- Whether the identifier belongs to the core pack: nothing stands above its
ordinal. -/
def isCore (id : ProtocolId) : Bool :=
  id.raw / 256 = 0

end ProtocolId

end Dissection

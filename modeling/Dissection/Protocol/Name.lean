import Dissection.Bytes.Hex
import Dissection.Protocol.HeaderKind
import Dissection.Protocol.Option

namespace Dissection

/-- A header, option or record that has an identifier of its own. -/
inductive Protocol where
  | header (kind : HeaderKind)
  | ipv4Option (option : Ipv4Option)
  | extensionHeader (extension : ExtensionHeader)
  | hopByHopOption (option : HopByHopOption)
  | tcpOption (option : TcpOption)
  | ndOption (option : NdOption)
  | addressRecord (record : AddressRecord)
  deriving DecidableEq, Repr

namespace Protocol

def all : List Protocol :=
  HeaderKind.all.map .header ++ Ipv4Option.all.map .ipv4Option ++
    ExtensionHeader.all.map .extensionHeader ++ HopByHopOption.all.map .hopByHopOption ++
    TcpOption.all.map .tcpOption ++ NdOption.all.map .ndOption ++
    AddressRecord.all.map .addressRecord

def id : Protocol → ProtocolId
  | .header kind => kind.id
  | .ipv4Option option => option.id
  | .extensionHeader extension => extension.id
  | .hopByHopOption option => option.id
  | .tcpOption option => option.id
  | .ndOption option => option.id
  | .addressRecord record => record.id

/-- The name of a protocol. Two protocols of different packs may share one. -/
def name : Protocol → String
  | .header kind => kind.name
  | .ipv4Option option => option.name
  | .extensionHeader extension => extension.name
  | .hopByHopOption option => option.name
  | .tcpOption option => option.name
  | .ndOption option => option.name
  | .addressRecord record => record.name

def ofId? (id : ProtocolId) : Option Protocol :=
  all.find? fun protocol => protocol.id == id

def knownIds : List ProtocolId :=
  all.map id

theorem knownIds_nodup : knownIds.Nodup := by
  decide +kernel

end Protocol

namespace ProtocolId

/-- The name of the protocol with this identifier, or `unknown`. -/
def name (id : ProtocolId) : String :=
  match Protocol.ofId? id with
  | some protocol => protocol.name
  | none => "unknown"

def describe (id : ProtocolId) : String :=
  id.name ++ "(" ++ Hex.literal 4 id.raw.toNat ++ ")"

end ProtocolId

end Dissection

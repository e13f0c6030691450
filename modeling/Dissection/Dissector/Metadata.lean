namespace Dissection

/-- How a hash was computed. -/
inductive HashType where
  | none
  | roundRobin
  | tuple2
  | tuple3
  | tuple4
  | tuple5
  deriving DecidableEq, Repr, Inhabited

namespace HashType

def code : HashType → UInt8
  | .none => 0
  | .roundRobin => 1
  | .tuple2 => 2
  | .tuple3 => 3
  | .tuple4 => 4
  | .tuple5 => 5

/-- The kind of hash with a code; a code that is not assigned means none. -/
def ofCode (code : UInt8) : HashType :=
  match code.toNat with
  | 1 => .roundRobin
  | 2 => .tuple2
  | 3 => .tuple3
  | 4 => .tuple4
  | 5 => .tuple5
  | _ => .none

@[simp] theorem ofCode_code (type : HashType) : ofCode type.code = type := by
  cases type <;> rfl

end HashType

/-- Flags that control the transmission of a packet. All eight bits of the byte are
kept. -/
structure TxFlags where
  bits : UInt8
  deriving DecidableEq, Repr, Inhabited

namespace TxFlags

def none : TxFlags :=
  ⟨0⟩

def now (flags : TxFlags) : Bool :=
  flags.bits &&& 1 != 0

def ignore (flags : TxFlags) : Bool :=
  flags.bits &&& 2 != 0

def crcOverride (flags : TxFlags) : Bool :=
  flags.bits &&& 4 != 0

def setClock (flags : TxFlags) : Bool :=
  flags.bits &&& 8 != 0

end TxFlags

/-- What is known of a packet besides its bytes. -/
structure Metadata where
  rxPort : UInt8
  txPort : UInt8
  txFlags : TxFlags
  /-- A hash of 24 bits. -/
  hash : UInt32
  hashType : HashType
  deriving DecidableEq, Repr

namespace Metadata

def blank : Metadata :=
  ⟨0, 0, .none, 0, .none⟩

/-- The metadata with a hash, of which the low 24 bits are kept. -/
def withHash (metadata : Metadata) (hash : UInt32) (type : HashType) : Metadata :=
  { metadata with hash := hash % 0x1000000, hashType := type }

end Metadata

end Dissection

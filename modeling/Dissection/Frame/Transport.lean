import Dissection.Frame.Expected
import Dissection.Frame.Trailers

namespace Dissection

open Bytes

def tcpMove (depth : Nat) (rest : Bytes) : ChainMove :=
  match u8? rest 12 with
  | none => .stop .silent
  | some byte =>
      let length := byte / 16 * 4
      if length < 20 then .stop (.remark (.shortTcp length))
      else
        Layer.then
          { kind := .tcp
            depth
            length
            marks := [.transport .tcp]
            members := ⟨20, optionEntries
              (fun kind => (TcpOption.ofCode? kind).map TcpOption.id) (length - 20)
              (rest.drop 20)⟩
            trailers := none }
          (.nothing .silent)

/-- A UDP header. What it carries is told by its ports, which are not known
here. -/
def udpMove (depth : Nat) (rest : Bytes) : ChainMove :=
  (Layer.plain .udp depth 8 [.transport .udp]).then <|
    match u16? rest 0, u16? rest 2 with
    | some source, some destination => .nothing (.unclaimed (.ports source destination))
    | _, _ => .nothing .silent

def sctpMove (depth : Nat) : ChainMove :=
  (Layer.plain .sctp depth 12 [.transport .sctp]).then (.nothing .silent)

/-- One entry of a source route. The entry whose address family and length are
both zero is the last; the state says that it has been read. -/
def sourceRouteStep (finished : Bool) (rest : Bytes) : Move Bool Nat Bool :=
  if finished then .stop true
  else
    match u16? rest 0, u8? rest 3 with
    | some family, some length =>
        .take (4 + length) (4 + length) (family = 0 && length = 0)
    | _, _ => .stop false

/-- The length of the source route at the front of the bytes, its last entry
included, if that entry is captured. -/
def sourceRouteLength? (rest : Bytes) : Option Nat :=
  let route := scan sourceRouteStep false false rest
  if route.verdict then some (total id route.items) else none

/-- The length that the flags of a GRE header give it, less its source route: four
bytes, and four for each of the checksum (which comes with a route too), the key,
the sequence number and, in version 1, the acknowledgment. -/
def greFixedLength (flags : Nat) : Nat :=
  4 + (if flags.testBit 15 || flags.testBit 14 then 4 else 0) +
    (if flags.testBit 13 then 4 else 0) + (if flags.testBit 12 then 4 else 0) +
    (if flags % 8 = 1 && flags.testBit 7 then 4 else 0)

/-- The length of the GRE header at the front of the bytes, if the source route it
announces ends within them. -/
def greLength? (flags : Nat) (rest : Bytes) : Option Nat :=
  let fixed := greFixedLength flags
  if flags.testBit 14 then (sourceRouteLength? (rest.drop fixed)).map (fixed + ·)
  else some fixed

def greMove (depth : Nat) (rest : Bytes) : ChainMove :=
  match u16? rest 0, u16? rest 2 with
  | some flags, some etherType =>
      match greLength? flags rest with
      | none => .stop .silent
      | some length =>
          (Layer.plain .gre depth length [.transport .gre]).then
            (.ofGrePayload depth etherType)
  | _, _ => .stop .silent

def icmp4Move (depth : Nat) (rest : Bytes) : ChainMove :=
  match u8? rest 0 with
  | none => .stop .silent
  | some type =>
      let message (kind : HeaderKind) (length : Nat) : ChainMove :=
        (Layer.plain kind depth length [.transport .icmp4]).then (.nothing .silent)
      match type with
      | Icmp4Type.echoRequest => message .icmp4EchoRequest 8
      | Icmp4Type.echoReply => message .icmp4EchoReply 8
      | _ => message .icmp4 4

/-- A control message of IPv6. An error message quotes a packet, a discovery
message is followed by options, a listener report is trailed by address
records. -/
def icmp6Move (depth : Nat) (rest : Bytes) : ChainMove :=
  match u8? rest 0 with
  | none => .stop .silent
  | some type =>
      let marks := [Mark.transport .icmp6]
      let message (kind : HeaderKind) (length : Nat) : ChainMove :=
        (Layer.plain kind depth length marks).then (.nothing .silent)
      let error (kind : HeaderKind) : ChainMove :=
        (Layer.plain kind depth 8 marks).then (.nested depth .quoted)
      let discovery (kind : HeaderKind) (length : Nat) : ChainMove :=
        Layer.then ⟨kind, depth, length, marks, ⟨length, ndEntries (rest.drop length)⟩,
          none⟩ (.nothing .silent)
      match type with
      | Icmp6Type.destinationUnreachable => error .icmp6DestinationUnreachable
      | Icmp6Type.timeExceeded => error .icmp6TimeExceeded
      | Icmp6Type.parameterProblem => error .icmp6ParameterProblem
      | Icmp6Type.echoRequest => message .icmp6EchoRequest 8
      | Icmp6Type.echoReply => message .icmp6EchoReply 8
      | Icmp6Type.routerSolicitation => discovery .icmp6RouterSolicitation 8
      | Icmp6Type.routerAdvertisement => discovery .icmp6RouterAdvertisement 16
      | Icmp6Type.neighborSolicitation => discovery .icmp6NeighborSolicitation 24
      | Icmp6Type.neighborAdvertisement => discovery .icmp6NeighborAdvertisement 24
      | Icmp6Type.listenerReport =>
          Layer.then ⟨.icmp6ListenerReport, depth, 8, marks, .none,
            some (addressRecords ((u16? rest 6).getD 0) (rest.drop 8))⟩ (.nothing .silent)
      | _ => message .icmp6 4

theorem sourceRouteStep_advances : Advances sourceRouteStep := by
  intro finished rest
  unfold sourceRouteStep
  split
  · simp
  · split
    · rw [Move.advances_take]
      omega
    · simp

theorem greFixedLength_pos (flags : Nat) : 0 < greFixedLength flags := by
  unfold greFixedLength
  omega

theorem greLength?_pos {flags length : Nat} {rest : Bytes}
    (h : greLength? flags rest = some length) : 0 < length := by
  have hfixed := greFixedLength_pos flags
  unfold greLength? at h
  dsimp only at h
  split at h
  · obtain ⟨route, _, rfl⟩ := Option.map_eq_some_iff.mp h
    omega
  · injection h with h
    omega

theorem tcpMove_advances (depth : Nat) (rest : Bytes) :
    (tcpMove depth rest).Advances := by
  unfold tcpMove
  split
  · simp
  · dsimp only
    split
    · simp
    · rename_i hlength
      exact Layer.span_pos (Nat.lt_of_lt_of_le (Nat.succ_pos 19)
        (Nat.le_of_not_lt hlength))

theorem udpMove_advances (depth : Nat) (rest : Bytes) :
    (udpMove depth rest).Advances := by
  simp [udpMove]

theorem sctpMove_advances (depth : Nat) : (sctpMove depth).Advances := by
  simp [sctpMove]

theorem greMove_advances (depth : Nat) (rest : Bytes) :
    (greMove depth rest).Advances := by
  unfold greMove
  split
  · split
    · simp
    · rename_i hlength
      rw [Layer.advances_then, Layer.span_plain]
      exact greLength?_pos hlength
  · simp

theorem icmp4Move_advances (depth : Nat) (rest : Bytes) :
    (icmp4Move depth rest).Advances := by
  unfold icmp4Move
  split
  · simp
  · dsimp only
    split <;> simp

theorem icmp6Move_advances (depth : Nat) (rest : Bytes) :
    (icmp6Move depth rest).Advances := by
  unfold icmp6Move
  split
  · simp
  · dsimp only
    split <;> exact Layer.span_pos (Nat.succ_pos _)

end Dissection

import Dissection.Frame.Link
import Dissection.Frame.Network
import Dissection.Frame.Transport

namespace Dissection

/-- One move along the chain: the header that is expected, if the bytes begin with
it, and what it announces. -/
def chainStep (expected : Expected) (rest : Bytes) : ChainMove :=
  match expected with
  | .ethernet datalink => ethernetMove datalink rest
  | .vlan => vlanMove rest
  | .sized => sizedMove rest
  | .snap => snapMove rest
  | .arp => arpMove rest
  | .ipx => ipxMove
  | .stp => stpMove rest
  | .mpls => mplsMove rest
  | .labelled => labelledMove rest
  | .ipv4 depth => ipv4Move depth rest
  | .ipv6 depth => ipv6Move depth rest
  | .quoted depth => quotedMove depth rest
  | .tcp depth => tcpMove depth rest
  | .udp depth => udpMove depth rest
  | .sctp depth => sctpMove depth
  | .gre depth => greMove depth rest
  | .icmp4 depth => icmp4Move depth rest
  | .icmp6 depth => icmp6Move depth rest
  | .nothing ending => .stop ending

/-- The layers from what is expected on, and how their chain ends. A header that
the capture cuts short is the last. -/
def chain (expected : Expected) (rest : Bytes) : Scanned Layer Ending :=
  scan chainStep .silent expected rest

def frameChain (datalink : Datalink) (captured : Bytes) : Scanned Layer Ending :=
  chain (.ethernet datalink) captured

theorem chainStep_advances : Advances chainStep := by
  intro expected rest
  cases expected with
  | ethernet datalink => exact ethernetMove_advances datalink rest
  | vlan => exact vlanMove_advances rest
  | sized => exact sizedMove_advances rest
  | snap => exact snapMove_advances rest
  | arp => exact arpMove_advances rest
  | ipx => exact ipxMove_advances
  | stp => exact stpMove_advances rest
  | mpls => exact mplsMove_advances rest
  | labelled => exact labelledMove_advances rest
  | ipv4 depth => exact ipv4Move_advances depth rest
  | ipv6 depth => exact ipv6Move_advances depth rest
  | quoted depth => exact quotedMove_advances depth rest
  | tcp depth => exact tcpMove_advances depth rest
  | udp depth => exact udpMove_advances depth rest
  | sctp depth => exact sctpMove_advances depth
  | gre depth => exact greMove_advances depth rest
  | icmp4 depth => exact icmp4Move_advances depth rest
  | icmp6 depth => exact icmp6Move_advances depth rest
  | nothing ending => exact Move.advances_stop ending

/-- The equation of a chain: it goes on behind a header that is captured whole. -/
theorem chain_eq (expected : Expected) (rest : Bytes) :
    chain expected rest =
      match chainStep expected rest with
      | .stop ending => ⟨[], ending⟩
      | .take layer span next =>
          if Bytes.has rest span then (chain next (rest.drop span)).cons layer
          else ⟨[layer], .silent⟩ := by
  rw [chain, scan_eq Ending.silent chainStep_advances]
  cases chainStep expected rest <;> rfl

end Dissection

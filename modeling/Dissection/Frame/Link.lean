import Dissection.Frame.Expected

namespace Dissection

open Bytes

/-- The first word behind an 802.3 length that marks a Novell frame. -/
def novellMarker : Nat := 0xFFFF

/-- What a type field and the bytes behind it say of the framing: a length and the
Novell marker make a Novell frame. -/
def novellMarks (field : Nat) (payload : Bytes) : List Mark :=
  if field < EtherType.least ∧ u16? payload 0 = some novellMarker then
    [.link .novellRaw]
  else []

/-- What the type field of the Ethernet header and the bytes behind it say of the
framing: a type is Ethernet II. -/
def framingMarks (field : Nat) (payload : Bytes) : List Mark :=
  if EtherType.least ≤ field then [.link .ether] else novellMarks field payload

def ethernetMove (datalink : Datalink) (rest : Bytes) : ChainMove :=
  match datalink with
  | .novellRaw => (Layer.plain .ethernet 0 14 [.link .novellRaw]).then .ipx
  | .ethernet =>
      match u16? rest 12 with
      | none => (Layer.plain .ethernet 0 14 []).then (.nothing .silent)
      | some field =>
          (Layer.plain .ethernet 0 14 (framingMarks field (rest.drop 14))).then
            (.ofTypeField field)

def vlanMove (rest : Bytes) : ChainMove :=
  match u16? rest 2 with
  | none => (Layer.plain .vlan 0 4 [.vlan]).then (.nothing .silent)
  | some field =>
      (Layer.plain .vlan 0 4 (.vlan :: novellMarks field (rest.drop 4))).then
        (.ofTypeField field)

/-- What follows an 802.3 length: IPX behind the Novell marker, else LLC. The
control field of an LLC header is one byte for unnumbered frames and two for
others. -/
def sizedMove (rest : Bytes) : ChainMove :=
  match u16? rest 0 with
  | none => .stop .silent
  | some marker =>
      if marker = novellMarker then (Layer.plain .ipx 0 30 []).then (.nothing .silent)
      else
        match u8? rest 0, u8? rest 1, u8? rest 2 with
        | some destination, some source, some control =>
            (Layer.plain .llc 0 (if control % 4 = 3 then 3 else 4) [.link .llc]).then
              (.ofServicePoints destination source control)
        | _, _, _ => .stop .silent

def snapMove (rest : Bytes) : ChainMove :=
  (Layer.plain .snap 0 5 [.link .snap]).then <|
    match u16? rest 3 with
    | none => .nothing .silent
    | some etherType => .ofEtherType etherType

/-- An ARP message, which holds two hardware and two protocol addresses. -/
def arpMove (rest : Bytes) : ChainMove :=
  match u8? rest 4, u8? rest 5 with
  | some hardware, some protocol =>
      (Layer.plain .arp 0 (8 + 2 * (hardware + protocol)) []).then (.nothing .silent)
  | _, _ => .stop .silent

def ipxMove : ChainMove :=
  (Layer.plain .ipx 0 30 []).then (.nothing .silent)

/-- A spanning tree message, as long as its type asks. -/
def stpMove (rest : Bytes) : ChainMove :=
  match u8? rest 3 with
  | none => .stop .silent
  | some kind =>
      match kind with
      | BridgeUnit.configuration => (Layer.plain .stp 0 35 []).then (.nothing .silent)
      | BridgeUnit.topologyChange => (Layer.plain .stp 0 4 []).then (.nothing .silent)
      | BridgeUnit.rapid => (Layer.plain .stp 0 36 []).then (.nothing .silent)
      | _ => .stop (.remark (.unknownBridgeUnit kind))

/-- An entry of a label stack. The bit above the time to live marks the bottom of
the stack. -/
def mplsMove (rest : Bytes) : ChainMove :=
  match u32? rest 0 with
  | none => .stop .silent
  | some entry =>
      (Layer.plain .mpls 0 4 [.mpls]).then
        (if entry.testBit 8 then .labelled else .mpls)

theorem ethernetMove_advances (datalink : Datalink) (rest : Bytes) :
    (ethernetMove datalink rest).Advances := by
  unfold ethernetMove
  split
  · simp
  · split <;> simp

theorem vlanMove_advances (rest : Bytes) : (vlanMove rest).Advances := by
  unfold vlanMove
  split <;> simp

theorem sizedMove_advances (rest : Bytes) : (sizedMove rest).Advances := by
  unfold sizedMove
  split
  · simp
  · split
    · simp
    · split
      · rw [Layer.advances_then, Layer.span_plain]
        split <;> simp
      · simp

theorem snapMove_advances (rest : Bytes) : (snapMove rest).Advances := by
  simp [snapMove]

theorem arpMove_advances (rest : Bytes) : (arpMove rest).Advances := by
  unfold arpMove
  split
  · rw [Layer.advances_then, Layer.span_plain]
    omega
  · simp

theorem ipxMove_advances : ipxMove.Advances := by
  simp [ipxMove]

theorem stpMove_advances (rest : Bytes) : (stpMove rest).Advances := by
  unfold stpMove
  split
  · simp
  · split <;> simp

theorem mplsMove_advances (rest : Bytes) : (mplsMove rest).Advances := by
  unfold mplsMove
  split <;> simp

end Dissection

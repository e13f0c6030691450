import Dissection.Frame.Link
import Dissection.Proofs.Checked.Arithmetic

namespace Dissection

namespace Checked

/-- The move to a header, behind which the chain goes on where the header and what trails it
end. -/
def take (layer : Layer) (next : Expected) : Checked ChainMove := do
  let span ← word layer.span
  .ok (.take layer span next)

section Definitions

variable (captured : Bytes)

def novellMarks (field payload : Nat) : Checked (List Mark) := do
  let marker ← u16At captured payload 0
  .ok (if field < EtherType.least ∧ marker = some novellMarker then [.link .novellRaw] else [])

def framingMarks (field payload : Nat) : Checked (List Mark) :=
  if EtherType.least ≤ field then .ok [.link .ether] else novellMarks captured field payload

/-- An Ethernet header, whose type field is read two bytes before the header ends. -/
def ethernetMove (datalink : Datalink) (offset : Nat) : Checked ChainMove :=
  match datalink with
  | .novellRaw => take (.plain .ethernet 0 14 [.link .novellRaw]) .ipx
  | .ethernet => do
      let payload ← word (offset + 14)
      let place ← less payload 2
      match ← u16At captured place 0 with
      | none => take (.plain .ethernet 0 14 []) (.nothing .silent)
      | some field =>
          let marks ← framingMarks captured field payload
          take (.plain .ethernet 0 14 marks) (.ofTypeField field)

def vlanMove (offset : Nat) : Checked ChainMove := do
  match ← u16At captured offset 2 with
  | none => take (.plain .vlan 0 4 [.vlan]) (.nothing .silent)
  | some field =>
      let payload ← word (offset + 4)
      let marks ← novellMarks captured field payload
      take (.plain .vlan 0 4 (.vlan :: marks)) (.ofTypeField field)

def sizedMove (offset : Nat) : Checked ChainMove := do
  match ← u16At captured offset 0 with
  | none => .ok (.stop .silent)
  | some marker =>
      if marker = novellMarker then take (.plain .ipx 0 30 []) (.nothing .silent)
      else
        match ← u8At captured offset 0, ← u8At captured offset 1, ← u8At captured offset 2 with
        | some destination, some source, some control =>
            take (.plain .llc 0 (if control % 4 = 3 then 3 else 4) [.link .llc])
              (.ofServicePoints destination source control)
        | _, _, _ => .ok (.stop .silent)

def snapMove (offset : Nat) : Checked ChainMove := do
  match ← u16At captured offset 3 with
  | none => take (.plain .snap 0 5 [.link .snap]) (.nothing .silent)
  | some etherType => take (.plain .snap 0 5 [.link .snap]) (.ofEtherType etherType)

def arpMove (offset : Nat) : Checked ChainMove := do
  match ← u8At captured offset 4, ← u8At captured offset 5 with
  | some hardware, some protocol =>
      let length ← word (8 + 2 * (hardware + protocol))
      take (.plain .arp 0 length []) (.nothing .silent)
  | _, _ => .ok (.stop .silent)

def stpMove (offset : Nat) : Checked ChainMove := do
  match ← u8At captured offset 3 with
  | none => .ok (.stop .silent)
  | some kind =>
      match kind with
      | BridgeUnit.configuration => take (.plain .stp 0 35 []) (.nothing .silent)
      | BridgeUnit.topologyChange => take (.plain .stp 0 4 []) (.nothing .silent)
      | BridgeUnit.rapid => take (.plain .stp 0 36 []) (.nothing .silent)
      | _ => .ok (.stop (.remark (.unknownBridgeUnit kind)))

def mplsMove (offset : Nat) : Checked ChainMove := do
  match ← u32At captured offset 0 with
  | none => .ok (.stop .silent)
  | some entry =>
      take (.plain .mpls 0 4 [.mpls]) (if entry.testBit 8 then .labelled else .mpls)

end Definitions

variable {captured : Bytes} {offset : Nat}

theorem take_eq {layer : Layer} (h : layer.span < 2 ^ 64) (next : Expected) :
    take layer next = .ok (layer.then next) := by
  rw [take, word_eq h]
  rfl

theorem take_plain {length : Nat} (h : length < 2 ^ 32) (kind : HeaderKind) (depth : Nat)
    (marks : List Mark) (next : Expected) :
    take (.plain kind depth length marks) next =
      .ok ((Layer.plain kind depth length marks).then next) :=
  take_eq (by rw [Layer.span_plain]; omega) next

theorem novellMarks_eq {reach : Nat} (h : Readable captured reach offset) (hreach : reach < 2 ^ 16)
    (field : Nat) :
    novellMarks captured field offset =
      .ok (Dissection.novellMarks field (captured.drop offset)) := by
  rw [novellMarks, u16At_eq h (by omega), ok_bind, Dissection.novellMarks]

theorem framingMarks_eq {reach : Nat} (h : Readable captured reach offset)
    (hreach : reach < 2 ^ 16) (field : Nat) :
    framingMarks captured field offset =
      .ok (Dissection.framingMarks field (captured.drop offset)) := by
  unfold framingMarks Dissection.framingMarks
  split
  · rfl
  · exact novellMarks_eq h hreach field

theorem ethernetMove_eq (h : Readable captured 0 offset) (datalink : Datalink) :
    ethernetMove captured datalink offset =
      .ok (Dissection.ethernetMove datalink (captured.drop offset)) := by
  obtain ⟨hcaptured, hoffset⟩ := id h
  cases datalink with
  | novellRaw => exact take_plain (by decide) _ _ _ _
  | ethernet =>
      have hplace : Readable captured 12 (offset + 14 - 2) := h.add 12
      have hfield : u16At captured (offset + 14 - 2) 0 =
          .ok (Bytes.u16? (captured.drop offset) 12) := by
        rw [u16At_eq hplace (by decide), Nat.add_sub_assoc (by decide), ← List.drop_drop,
          Bytes.u16?_drop]
      rw [ethernetMove, word_eq (by omega), ok_bind, less_eq (by omega), ok_bind, hfield, ok_bind,
        Dissection.ethernetMove]
      cases Bytes.u16? (captured.drop offset) 12 with
      | none => exact take_plain (by decide) _ _ _ _
      | some field =>
          dsimp only
          rw [framingMarks_eq (h.add 14) (by decide), ok_bind, ← List.drop_drop]
          exact take_plain (by decide) _ _ _ _

theorem vlanMove_eq (h : Readable captured 0 offset) :
    vlanMove captured offset = .ok (Dissection.vlanMove (captured.drop offset)) := by
  obtain ⟨hcaptured, hoffset⟩ := id h
  rw [vlanMove, u16At_eq h (by decide), ok_bind, Dissection.vlanMove]
  cases Bytes.u16? (captured.drop offset) 2 with
  | none => exact take_plain (by decide) _ _ _ _
  | some field =>
      dsimp only
      rw [word_eq (by omega), ok_bind, novellMarks_eq (h.add 4) (by decide), ok_bind,
        ← List.drop_drop]
      exact take_plain (by decide) _ _ _ _

theorem sizedMove_eq (h : Readable captured 0 offset) :
    sizedMove captured offset = .ok (Dissection.sizedMove (captured.drop offset)) := by
  unfold sizedMove Dissection.sizedMove
  simp (disch := decide) only [u8At_eq h, u16At_eq h, ok_bind]
  cases Bytes.u16? (captured.drop offset) 0 with
  | none => rfl
  | some marker =>
      dsimp only
      split
      · exact take_plain (by decide) _ _ _ _
      · cases Bytes.u8? (captured.drop offset) 0 with
        | none => rfl
        | some destination =>
            cases Bytes.u8? (captured.drop offset) 1 with
            | none => rfl
            | some source =>
                cases Bytes.u8? (captured.drop offset) 2 with
                | none => rfl
                | some control => exact take_plain (by split <;> decide) _ _ _ _

theorem snapMove_eq (h : Readable captured 0 offset) :
    snapMove captured offset = .ok (Dissection.snapMove (captured.drop offset)) := by
  rw [snapMove, u16At_eq h (by decide), ok_bind, Dissection.snapMove]
  cases Bytes.u16? (captured.drop offset) 3 <;> exact take_plain (by decide) _ _ _ _

theorem arpMove_eq (h : Readable captured 0 offset) :
    arpMove captured offset = .ok (Dissection.arpMove (captured.drop offset)) := by
  unfold arpMove Dissection.arpMove
  simp (disch := decide) only [u8At_eq h, ok_bind]
  cases hhardware : Bytes.u8? (captured.drop offset) 4 with
  | none => rfl
  | some hardware =>
      cases hprotocol : Bytes.u8? (captured.drop offset) 5 with
      | none => rfl
      | some protocol =>
          have := Bytes.u8?_lt hhardware
          have := Bytes.u8?_lt hprotocol
          dsimp only
          rw [word_eq (by omega), ok_bind]
          exact take_plain (by omega) _ _ _ _

theorem stpMove_eq (h : Readable captured 0 offset) :
    stpMove captured offset = .ok (Dissection.stpMove (captured.drop offset)) := by
  rw [stpMove, u8At_eq h (by decide), ok_bind, Dissection.stpMove]
  cases Bytes.u8? (captured.drop offset) 3 with
  | none => rfl
  | some kind =>
      dsimp only
      split
      · exact take_plain (by decide) _ _ _ _
      · exact take_plain (by decide) _ _ _ _
      · exact take_plain (by decide) _ _ _ _
      · simp only

theorem mplsMove_eq (h : Readable captured 0 offset) :
    mplsMove captured offset = .ok (Dissection.mplsMove (captured.drop offset)) := by
  rw [mplsMove, u32At_eq h (by decide), ok_bind, Dissection.mplsMove]
  cases Bytes.u32? (captured.drop offset) 0 with
  | none => rfl
  | some entry => exact take_plain (by decide) _ _ _ _

end Checked

end Dissection

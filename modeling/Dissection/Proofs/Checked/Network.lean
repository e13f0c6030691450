import Dissection.Frame.Network
import Dissection.Proofs.Checked.Link
import Dissection.Proofs.Checked.Trailers

namespace Dissection

namespace Checked

/-- What is expected inside a packet at a depth, which is counted in one byte. -/
def nested (depth : Nat) (inside : Nat → Expected) : Checked Expected := do
  let deeper ← fit 8 (depth + 1)
  .ok (if deeper < Expected.nestingLimit then inside deeper
    else .nothing (.remark (.nestingLimit deeper)))

def ofIpNumber (depth number : Nat) : Checked Expected :=
  match number with
  | IpNumber.ipv4 => nested depth .ipv4
  | IpNumber.ipv6 => nested depth .ipv6
  | _ => .ok (.ofIpNumber depth number)

def ofGrePayload (depth etherType : Nat) : Checked Expected :=
  match etherType with
  | EtherType.ipv4 => nested depth .ipv4
  | EtherType.ipv6 => nested depth .ipv6
  | _ => .ok (.ofGrePayload depth etherType)

section Definitions

variable (captured : Bytes)

def ipv4Move (depth offset : Nat) : Checked ChainMove := do
  match ← u8At captured offset 0 with
  | none => .ok (.stop .silent)
  | some byte =>
      let length ← word (byte % 16 * 4)
      if byte / 16 ≠ 4 then .ok (.stop (.remark (.notIpv4 (byte / 16))))
      else if length < 20 then .ok (.stop (.remark (.shortIpv4 length)))
      else
        match ← u16At captured offset 6, ← u8At captured offset 9 with
        | some field, some number =>
            let fragment := Fragment.ofIpv4 field
            let start ← word (offset + 20)
            let stop ← word (offset + length)
            let entries ← optionEntries captured
              (fun kind => (Ipv4Option.ofCode? kind).map Ipv4Option.id) start stop
            let next ← ofIpNumber depth number
            take
              { kind := .ipv4
                depth
                length
                marks := [.network .ipv4, .fragment fragment]
                members := ⟨20, entries⟩
                trailers := none }
              (if 0 < fragment.offset then .nothing .silent else next)
        | _, _ => .ok (.stop .silent)

def behindExtensions (depth : Nat) (verdict : Option Nat) : Checked Expected :=
  match verdict with
  | none => .ok (.nothing .silent)
  | some number => ofIpNumber depth number

def ipv6Move (depth offset : Nat) : Checked ChainMove := do
  match ← u8At captured offset 0 with
  | none => .ok (.stop .silent)
  | some byte =>
      if byte / 16 ≠ 6 then .ok (.stop (.remark (.notIpv6 (byte / 16))))
      else
        match ← u8At captured offset 6 with
        | none => .ok (.stop .silent)
        | some next =>
            let start ← word (offset + 40)
            let trailers ← extensionTrailers captured next start
            let behind ← behindExtensions depth trailers.verdict
            take ⟨.ipv6, depth, 40, [.network .ipv6], .none, some trailers.items⟩ behind

def labelledMove (offset : Nat) : Checked ChainMove := do
  match ← u8At captured offset 0 with
  | none => .ok (.stop .silent)
  | some byte =>
      match byte / 16 with
      | 4 => ipv4Move captured 0 offset
      | 6 => ipv6Move captured 0 offset
      | version => .ok (.stop (.remark (.unknownLabelled version)))

def quotedMove (depth offset : Nat) : Checked ChainMove := do
  match ← u8At captured offset 0 with
  | none => .ok (.stop .silent)
  | some byte =>
      match byte / 16 with
      | 4 => ipv4Move captured depth offset
      | 6 => ipv6Move captured depth offset
      | _ => .ok (.stop .silent)

end Definitions

variable {captured : Bytes} {depth offset : Nat}

theorem nested_eq (h : depth < Expected.nestingLimit) (inside : Nat → Expected) :
    nested depth inside = .ok (.nested depth inside) := by
  rw [Expected.nestingLimit] at h
  rw [nested, fit_eq (by omega)]
  rfl

theorem ofIpNumber_eq (h : depth < Expected.nestingLimit) (number : Nat) :
    ofIpNumber depth number = .ok (.ofIpNumber depth number) := by
  unfold ofIpNumber
  split
  · exact nested_eq h _
  · exact nested_eq h _
  · rfl

theorem ofGrePayload_eq (h : depth < Expected.nestingLimit) (etherType : Nat) :
    ofGrePayload depth etherType = .ok (.ofGrePayload depth etherType) := by
  unfold ofGrePayload
  split
  · exact nested_eq h _
  · exact nested_eq h _
  · rfl

theorem ipv4Move_eq (h : Readable captured 0 offset) (hdepth : depth < Expected.nestingLimit) :
    ipv4Move captured depth offset =
      .ok (Dissection.ipv4Move depth (captured.drop offset)) := by
  obtain ⟨hcaptured, hoffset⟩ := id h
  unfold ipv4Move Dissection.ipv4Move
  simp (disch := decide) only [u8At_eq h, u16At_eq h, ok_bind, ofIpNumber_eq hdepth]
  cases hbyte : Bytes.u8? (captured.drop offset) 0 with
  | none => rfl
  | some byte =>
      have hlt := Bytes.u8?_lt hbyte
      have hregion : offset + byte % 16 * 4 - (offset + 20) = byte % 16 * 4 - 20 := by omega
      dsimp only
      rw [word_eq (by omega), ok_bind]
      split
      · rfl
      · split
        · rfl
        · cases Bytes.u16? (captured.drop offset) 6 with
          | none => rfl
          | some field =>
              cases Bytes.u8? (captured.drop offset) 9 with
              | none => rfl
              | some number =>
                  dsimp only
                  rw [word_eq (by omega), ok_bind, word_eq (by omega), ok_bind,
                    optionEntries_eq _ (h.add 20), hregion, ok_bind, ← List.drop_drop]
                  exact take_eq (by simp [Layer.span]; omega) _

theorem behindExtensions_eq (h : depth < Expected.nestingLimit) (verdict : Option Nat) :
    behindExtensions depth verdict =
      .ok (match verdict with
        | none => .nothing .silent
        | some number => .ofIpNumber depth number) := by
  cases verdict with
  | none => rfl
  | some number => exact ofIpNumber_eq h number

theorem ipv6Move_eq (h : Readable captured 0 offset) (hdepth : depth < Expected.nestingLimit) :
    ipv6Move captured depth offset =
      .ok (Dissection.ipv6Move depth (captured.drop offset)) := by
  obtain ⟨hcaptured, hoffset⟩ := id h
  unfold ipv6Move Dissection.ipv6Move
  simp (disch := decide) only [u8At_eq h, ok_bind]
  cases Bytes.u8? (captured.drop offset) 0 with
  | none => rfl
  | some byte =>
      dsimp only
      split
      · rfl
      · cases Bytes.u8? (captured.drop offset) 6 with
        | none => rfl
        | some next =>
            have htotal := total_extensionTrailers_le next ((captured.drop offset).drop 40)
            simp only [List.length_drop] at htotal
            dsimp only
            rw [word_eq (by omega), ok_bind, extensionTrailers_eq (h.add 40), ok_bind,
              behindExtensions_eq hdepth, ok_bind, ← List.drop_drop]
            exact take_eq (by simp only [Layer.span, Option.getD_some]; omega) _

theorem labelledMove_eq (h : Readable captured 0 offset) :
    labelledMove captured offset = .ok (Dissection.labelledMove (captured.drop offset)) := by
  rw [labelledMove, u8At_eq h (by decide), ok_bind, Dissection.labelledMove]
  cases Bytes.u8? (captured.drop offset) 0 with
  | none => rfl
  | some byte =>
      dsimp only
      generalize byte / 16 = version
      split
      · exact ipv4Move_eq h (Nat.zero_lt_succ 3)
      · exact ipv6Move_eq h (Nat.zero_lt_succ 3)
      · simp only

theorem quotedMove_eq (h : Readable captured 0 offset) (hdepth : depth < Expected.nestingLimit) :
    quotedMove captured depth offset =
      .ok (Dissection.quotedMove depth (captured.drop offset)) := by
  rw [quotedMove, u8At_eq h (by decide), ok_bind, Dissection.quotedMove]
  cases Bytes.u8? (captured.drop offset) 0 with
  | none => rfl
  | some byte =>
      dsimp only
      generalize byte / 16 = version
      split
      · exact ipv4Move_eq h hdepth
      · exact ipv6Move_eq h hdepth
      · simp only

end Checked

end Dissection

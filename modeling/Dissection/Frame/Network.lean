import Dissection.Frame.Expected
import Dissection.Frame.Trailers

namespace Dissection

open Bytes

/-- What the flags and fragment offset of an IPv4 header say. -/
def Fragment.ofIpv4 (word : Nat) : Fragment :=
  ⟨word.testBit 13, word % 8192⟩

/-- An IPv4 header with its options. Only the first fragment of a packet carries
the header of the protocol it names. -/
def ipv4Move (depth : Nat) (rest : Bytes) : ChainMove :=
  match u8? rest 0 with
  | none => .stop .silent
  | some byte =>
      let length := byte % 16 * 4
      if byte / 16 ≠ 4 then .stop (.remark (.notIpv4 (byte / 16)))
      else if length < 20 then .stop (.remark (.shortIpv4 length))
      else
        match u16? rest 6, u8? rest 9 with
        | some word, some number =>
            let fragment := Fragment.ofIpv4 word
            Layer.then
              { kind := .ipv4
                depth
                length
                marks := [.network .ipv4, .fragment fragment]
                members := ⟨20, optionEntries
                  (fun kind => (Ipv4Option.ofCode? kind).map Ipv4Option.id) (length - 20)
                  (rest.drop 20)⟩
                trailers := none }
              (if 0 < fragment.offset then .nothing .silent
                else .ofIpNumber depth number)
        | _, _ => .stop .silent

def ipv6Move (depth : Nat) (rest : Bytes) : ChainMove :=
  match u8? rest 0 with
  | none => .stop .silent
  | some byte =>
      if byte / 16 ≠ 6 then .stop (.remark (.notIpv6 (byte / 16)))
      else
        match u8? rest 6 with
        | none => .stop .silent
        | some next =>
            let trailers := extensionTrailers next (rest.drop 40)
            Layer.then
              ⟨.ipv6, depth, 40, [.network .ipv6], .none, some trailers.items⟩
              (match trailers.verdict with
                | none => .nothing .silent
                | some number => .ofIpNumber depth number)

/-- The packet behind a label stack, which only its version tells apart. -/
def labelledMove (rest : Bytes) : ChainMove :=
  match u8? rest 0 with
  | none => .stop .silent
  | some byte =>
      match byte / 16 with
      | 4 => ipv4Move 0 rest
      | 6 => ipv6Move 0 rest
      | version => .stop (.remark (.unknownLabelled version))

/-- The packet that an error message quotes, which only its version tells
apart. -/
def quotedMove (depth : Nat) (rest : Bytes) : ChainMove :=
  match u8? rest 0 with
  | none => .stop .silent
  | some byte =>
      match byte / 16 with
      | 4 => ipv4Move depth rest
      | 6 => ipv6Move depth rest
      | _ => .stop .silent

theorem ipv4Move_advances (depth : Nat) (rest : Bytes) :
    (ipv4Move depth rest).Advances := by
  unfold ipv4Move
  split
  · simp
  · dsimp only
    split
    · simp
    · split
      · simp
      · rename_i hlength
        split
        · exact Layer.span_pos (Nat.lt_of_lt_of_le (Nat.succ_pos 19)
            (Nat.le_of_not_lt hlength))
        · simp

theorem ipv6Move_advances (depth : Nat) (rest : Bytes) :
    (ipv6Move depth rest).Advances := by
  unfold ipv6Move
  split
  · simp
  · split
    · simp
    · split
      · simp
      · exact Layer.span_pos (Nat.succ_pos 39)

theorem labelledMove_advances (rest : Bytes) : (labelledMove rest).Advances := by
  unfold labelledMove
  split
  · simp
  · split
    · exact ipv4Move_advances 0 rest
    · exact ipv6Move_advances 0 rest
    · simp

theorem quotedMove_advances (depth : Nat) (rest : Bytes) :
    (quotedMove depth rest).Advances := by
  unfold quotedMove
  split
  · simp
  · split
    · exact ipv4Move_advances depth rest
    · exact ipv6Move_advances depth rest
    · simp

end Dissection

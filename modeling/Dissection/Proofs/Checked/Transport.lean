import Dissection.Proofs.Checked.Network
import Dissection.Proofs.GreHeader

namespace Dissection

namespace Checked

section Definitions

def sourceRouteStep (captured : Bytes) (finished : Bool) (offset : Nat) :
    Checked (Move Bool Nat Bool) :=
  if finished then .ok (.stop true)
  else do
    match ← u16At captured offset 0, ← u8At captured offset 3 with
    | some family, some length =>
        let size ← word (4 + length)
        .ok (.take size size (family = 0 && length = 0))
    | _, _ => .ok (.stop false)

/-- The length of the source route at an offset: its end less its start. -/
def sourceRouteLength? (captured : Bytes) (start : Nat) : Checked (Option Nat) := do
  let route ← walk (sourceRouteStep captured) false captured false start
  if route.verdict then
    let stop ← word (start + total id route.items)
    let length ← less stop start
    .ok (some length)
  else .ok none

variable (captured : Bytes)

def tcpMove (depth offset : Nat) : Checked ChainMove := do
  match ← u8At captured offset 12 with
  | none => .ok (.stop .silent)
  | some byte =>
      let length ← word (byte / 16 * 4)
      if length < 20 then .ok (.stop (.remark (.shortTcp length)))
      else
        let start ← word (offset + 20)
        let stop ← word (offset + length)
        let entries ← optionEntries captured
          (fun kind => (TcpOption.ofCode? kind).map TcpOption.id) start stop
        take
          { kind := .tcp
            depth
            length
            marks := [.transport .tcp]
            members := ⟨20, entries⟩
            trailers := none }
          (.nothing .silent)

def udpMove (depth offset : Nat) : Checked ChainMove := do
  match ← u16At captured offset 0, ← u16At captured offset 2 with
  | some source, some destination =>
      take (.plain .udp depth 8 [.transport .udp])
        (.nothing (.unclaimed (.ports source destination)))
  | _, _ => take (.plain .udp depth 8 [.transport .udp]) (.nothing .silent)

def greLength? (flags offset : Nat) : Checked (Option Nat) := do
  let fixed ← word (greFixedLength flags)
  if flags.testBit 14 then
    let start ← word (offset + fixed)
    match ← sourceRouteLength? captured start with
    | none => .ok none
    | some route =>
        let length ← word (fixed + route)
        .ok (some length)
  else .ok (some fixed)

def greMove (depth offset : Nat) : Checked ChainMove := do
  match ← u16At captured offset 0, ← u16At captured offset 2 with
  | some flags, some etherType =>
      match ← greLength? captured flags offset with
      | none => .ok (.stop .silent)
      | some length =>
          let next ← ofGrePayload depth etherType
          take (.plain .gre depth length [.transport .gre]) next
  | _, _ => .ok (.stop .silent)

def icmp4Move (depth offset : Nat) : Checked ChainMove := do
  match ← u8At captured offset 0 with
  | none => .ok (.stop .silent)
  | some type =>
      let message (kind : HeaderKind) (length : Nat) : Checked ChainMove :=
        take (.plain kind depth length [.transport .icmp4]) (.nothing .silent)
      match type with
      | Icmp4Type.echoRequest => message .icmp4EchoRequest 8
      | Icmp4Type.echoReply => message .icmp4EchoReply 8
      | _ => message .icmp4 4

def discoveryMove (kind : HeaderKind) (depth length offset : Nat) : Checked ChainMove := do
  let start ← word (offset + length)
  let entries ← ndEntries captured start
  take ⟨kind, depth, length, [.transport .icmp6], ⟨length, entries⟩, none⟩ (.nothing .silent)

/-- A listener report, trailed by as many address records as it announces. -/
def reportMove (depth offset : Nat) : Checked ChainMove := do
  let count ← u16At captured offset 6
  let start ← word (offset + 8)
  let records ← addressRecords captured (count.getD 0) start
  take ⟨.icmp6ListenerReport, depth, 8, [.transport .icmp6], .none, some records⟩
    (.nothing .silent)

def icmp6Move (depth offset : Nat) : Checked ChainMove := do
  match ← u8At captured offset 0 with
  | none => .ok (.stop .silent)
  | some type =>
      let message (kind : HeaderKind) (length : Nat) : Checked ChainMove :=
        take (.plain kind depth length [.transport .icmp6]) (.nothing .silent)
      let error (kind : HeaderKind) : Checked ChainMove := do
        let next ← nested depth .quoted
        take (.plain kind depth 8 [.transport .icmp6]) next
      let discovery (kind : HeaderKind) (length : Nat) : Checked ChainMove :=
        discoveryMove captured kind depth length offset
      match type with
      | Icmp6Type.destinationUnreachable => error .icmp6DestinationUnreachable
      | Icmp6Type.timeExceeded => error .icmp6TimeExceeded
      | Icmp6Type.parameterProblem => error .icmp6ParameterProblem
      | Icmp6Type.echoRequest => message .icmp6EchoRequest 8
      | Icmp6Type.echoReply => message .icmp6EchoReply 8
      | Icmp6Type.routerSolicitation => discovery .icmp6RouterSolicitation 8
      | Icmp6Type.routerAdvertisement => discovery .icmp6RouterAdvertisement 16
      | Icmp6Type.neighborSolicitation => discovery .icmp6NeighborSolicitation 24
      | Icmp6Type.neighborAdvertisement => discovery .icmp6NeighborAdvertisement 24
      | Icmp6Type.listenerReport => reportMove captured depth offset
      | _ => message .icmp6 4

end Definitions

variable {captured : Bytes} {depth offset start : Nat}

theorem sourceRouteStep_eq (h : Readable captured 20 offset) (finished : Bool) :
    sourceRouteStep captured finished offset =
      .ok (Dissection.sourceRouteStep finished (captured.drop offset)) := by
  cases finished with
  | true => rfl
  | false =>
      simp (disch := decide) only [sourceRouteStep, Dissection.sourceRouteStep, u8At_eq h,
        u16At_eq h, ok_bind, Bool.false_eq_true, if_false]
      cases Bytes.u16? (captured.drop offset) 0 with
      | none => rfl
      | some family =>
          cases hlength : Bytes.u8? (captured.drop offset) 3 with
          | none => rfl
          | some length =>
              have hlt := Bytes.u8?_lt hlength
              dsimp only
              rw [word_eq (by omega)]
              rfl

theorem sourceRouteStep_follows (captured : Bytes) :
    Follows captured 20 (sourceRouteStep captured) Dissection.sourceRouteStep
      (fun _ state => state) fun _ => True := by
  refine .of_eq (fun finished offset _ h => sourceRouteStep_eq h finished) ?_
  intro finished offset _
  cases finished with
  | true => trivial
  | false =>
      cases hmove : Dissection.sourceRouteStep false (captured.drop offset) with
      | stop verdict => trivial
      | take item size next =>
          obtain ⟨_, length, _, hlength, _, rfl, _⟩ := sourceRouteStep_take hmove
          have := Bytes.u8?_lt hlength
          exact ⟨by omega, trivial⟩

theorem sourceRouteLength?_eq (h : Readable captured 20 start) :
    sourceRouteLength? captured start =
      .ok (Dissection.sourceRouteLength? (captured.drop start)) := by
  obtain ⟨hcaptured, hstart⟩ := id h
  have hwalk : walk (sourceRouteStep captured) false captured false start =
      .ok (scan Dissection.sourceRouteStep false false (captured.drop start)) :=
    walk_eq false sourceRouteStep_advances (sourceRouteStep_follows captured) (by decide) trivial h
  have hscans : Scans Dissection.sourceRouteStep false false (captured.drop start) _ :=
    scans_scan sourceRouteStep_advances _ _
  rw [sourceRouteLength?, hwalk, ok_bind, Dissection.sourceRouteLength?]
  split
  · rename_i hverdict
    have hroute := (hscans.sourceRoute rfl hverdict).length_le
    rw [List.length_drop] at hroute
    rw [word_eq (by omega), ok_bind, less_eq (by omega), ok_bind, Nat.add_sub_cancel_left]
  · rfl

theorem tcpMove_eq (h : Readable captured 0 offset) (depth : Nat) :
    tcpMove captured depth offset = .ok (Dissection.tcpMove depth (captured.drop offset)) := by
  obtain ⟨hcaptured, hoffset⟩ := id h
  rw [tcpMove, u8At_eq h (by decide), ok_bind, Dissection.tcpMove]
  cases hbyte : Bytes.u8? (captured.drop offset) 12 with
  | none => rfl
  | some byte =>
      have hlt := Bytes.u8?_lt hbyte
      have hregion : offset + byte / 16 * 4 - (offset + 20) = byte / 16 * 4 - 20 := by omega
      dsimp only
      rw [word_eq (by omega), ok_bind]
      split
      · rfl
      · rw [word_eq (by omega), ok_bind, word_eq (by omega), ok_bind,
          optionEntries_eq _ (h.add 20), hregion, ok_bind, ← List.drop_drop]
        exact take_eq (by simp [Layer.span]; omega) _

theorem udpMove_eq (h : Readable captured 0 offset) (depth : Nat) :
    udpMove captured depth offset = .ok (Dissection.udpMove depth (captured.drop offset)) := by
  unfold udpMove Dissection.udpMove
  simp (disch := decide) only [u16At_eq h, ok_bind]
  cases Bytes.u16? (captured.drop offset) 0 with
  | none => exact take_plain (by decide) _ _ _ _
  | some source =>
      cases Bytes.u16? (captured.drop offset) 2 <;> exact take_plain (by decide) _ _ _ _

theorem greFixedLength_le (flags : Nat) : greFixedLength flags ≤ 20 := by
  unfold greFixedLength
  split_ifs <;> decide

theorem greLength?_eq (h : Readable captured 0 offset) (flags : Nat) :
    greLength? captured flags offset =
      .ok (Dissection.greLength? flags (captured.drop offset)) := by
  obtain ⟨hcaptured, hoffset⟩ := id h
  have hfixed := greFixedLength_le flags
  rw [greLength?, word_eq (by omega), ok_bind, Dissection.greLength?]
  split
  · rw [word_eq (by omega), ok_bind, sourceRouteLength?_eq ((h.add _).mono (by omega)), ok_bind,
      ← List.drop_drop]
    cases hroute : Dissection.sourceRouteLength? ((captured.drop offset).drop
        (greFixedLength flags)) with
    | none => rfl
    | some route =>
        have hlength := (sourceRouteLength?_eq_some_iff.mp hroute).length_le
        simp only [List.length_drop] at hlength
        dsimp only
        rw [word_eq (by omega)]
        rfl
  · rfl

theorem greLength?_le {flags length : Nat} {rest : Bytes}
    (h : Dissection.greLength? flags rest = some length) : length ≤ 20 + rest.length := by
  have hfixed := greFixedLength_le flags
  unfold Dissection.greLength? at h
  split at h
  · obtain ⟨route, hroute, rfl⟩ := Option.map_eq_some_iff.mp h
    have hlength := (sourceRouteLength?_eq_some_iff.mp hroute).length_le
    rw [List.length_drop] at hlength
    omega
  · cases h
    omega

theorem greMove_eq (h : Readable captured 0 offset) (hdepth : depth < Expected.nestingLimit) :
    greMove captured depth offset = .ok (Dissection.greMove depth (captured.drop offset)) := by
  have hcaptured := h.captured_le
  unfold greMove Dissection.greMove
  simp (disch := decide) only [u16At_eq h, ok_bind]
  cases Bytes.u16? (captured.drop offset) 0 with
  | none => rfl
  | some flags =>
      cases Bytes.u16? (captured.drop offset) 2 with
      | none => rfl
      | some etherType =>
          dsimp only
          rw [greLength?_eq h, ok_bind]
          cases hlength : Dissection.greLength? flags (captured.drop offset) with
          | none => rfl
          | some length =>
              have hle := greLength?_le hlength
              rw [List.length_drop] at hle
              dsimp only
              rw [ofGrePayload_eq hdepth, ok_bind]
              exact take_plain (by omega) _ _ _ _

theorem icmp4Move_eq (h : Readable captured 0 offset) (depth : Nat) :
    icmp4Move captured depth offset =
      .ok (Dissection.icmp4Move depth (captured.drop offset)) := by
  rw [icmp4Move, u8At_eq h (by decide), ok_bind, Dissection.icmp4Move]
  cases Bytes.u8? (captured.drop offset) 0 with
  | none => rfl
  | some type =>
      dsimp only
      split
      · exact take_plain (by decide) _ _ _ _
      · exact take_plain (by decide) _ _ _ _
      · simp only [take_plain (show 4 < 2 ^ 32 by decide)]

theorem discoveryMove_eq (h : Readable captured 0 offset) {length : Nat} (hlength : length ≤ 24)
    (kind : HeaderKind) (depth : Nat) :
    discoveryMove captured kind depth length offset =
      .ok (Layer.then ⟨kind, depth, length, [.transport .icmp6],
        ⟨length, Dissection.ndEntries ((captured.drop offset).drop length)⟩, none⟩
        (.nothing .silent)) := by
  obtain ⟨hcaptured, hoffset⟩ := id h
  rw [discoveryMove, word_eq (by omega), ok_bind, ndEntries_eq ((h.add _).mono (by omega)), ok_bind,
    ← List.drop_drop]
  exact take_eq (by simp [Layer.span]; omega) _

theorem reportMove_eq (h : Readable captured 0 offset) (depth : Nat) :
    reportMove captured depth offset =
      .ok (Layer.then ⟨.icmp6ListenerReport, depth, 8, [.transport .icmp6], .none,
        some (Dissection.addressRecords ((Bytes.u16? (captured.drop offset) 6).getD 0)
          ((captured.drop offset).drop 8))⟩ (.nothing .silent)) := by
  obtain ⟨hcaptured, hoffset⟩ := id h
  have htotal := total_addressRecords_le ((Bytes.u16? (captured.drop offset) 6).getD 0)
    ((captured.drop offset).drop 8)
  simp only [List.length_drop] at htotal
  rw [reportMove, u16At_eq h (by decide), ok_bind, word_eq (by omega), ok_bind,
    addressRecords_eq (h.add 8), ok_bind, ← List.drop_drop]
  exact take_eq (by simp only [Layer.span, Option.getD_some]; omega) _

theorem icmp6Move_eq (h : Readable captured 0 offset) (hdepth : depth < Expected.nestingLimit) :
    icmp6Move captured depth offset =
      .ok (Dissection.icmp6Move depth (captured.drop offset)) := by
  rw [icmp6Move, u8At_eq h (by decide), ok_bind, Dissection.icmp6Move]
  cases Bytes.u8? (captured.drop offset) 0 with
  | none => rfl
  | some type =>
      dsimp only
      rw [nested_eq hdepth, ok_bind]
      split
      case h_1 | h_2 | h_3 | h_4 | h_5 => exact take_plain (show 8 < 2 ^ 32 by decide) _ _ _ _
      case h_6 | h_7 | h_8 | h_9 => exact discoveryMove_eq h (by decide) _ _
      case h_10 => exact reportMove_eq h depth
      case h_11 => simp only [take_plain (show 4 < 2 ^ 32 by decide)]

end Checked

end Dissection

import Dissection.Proofs.Checked.Transport
import Dissection.Proofs.Termination

namespace Dissection

namespace Checked

def chainStep (captured : Bytes) (expected : Expected) (offset : Nat) : Checked ChainMove :=
  match expected with
  | .ethernet datalink => ethernetMove captured datalink offset
  | .vlan => vlanMove captured offset
  | .sized => sizedMove captured offset
  | .snap => snapMove captured offset
  | .arp => arpMove captured offset
  | .ipx => take (.plain .ipx 0 30 []) (.nothing .silent)
  | .stp => stpMove captured offset
  | .mpls => mplsMove captured offset
  | .labelled => labelledMove captured offset
  | .ipv4 depth => ipv4Move captured depth offset
  | .ipv6 depth => ipv6Move captured depth offset
  | .quoted depth => quotedMove captured depth offset
  | .tcp depth => tcpMove captured depth offset
  | .udp depth => udpMove captured depth offset
  | .sctp depth => take (.plain .sctp depth 12 [.transport .sctp]) (.nothing .silent)
  | .gre depth => greMove captured depth offset
  | .icmp4 depth => icmp4Move captured depth offset
  | .icmp6 depth => icmp6Move captured depth offset
  | .nothing ending => .ok (.stop ending)

def chain (captured : Bytes) (expected : Expected) (offset : Nat) :
    Checked (Scanned Layer Ending) :=
  walk (chainStep captured) .silent captured expected offset

/-- What is expected lies below the nesting limit, so that one more can be counted. -/
def Nestable (expected : Expected) : Prop :=
  ∀ depth, expected.depth? = some depth → depth < Expected.nestingLimit

section Chain

variable {captured : Bytes} {expected next : Expected} {offset : Nat}

theorem chainStep_eq (h : Readable captured 0 offset) (hnestable : Nestable expected) :
    chainStep captured expected offset =
      .ok (Dissection.chainStep expected (captured.drop offset)) := by
  cases expected with
  | ethernet datalink => exact ethernetMove_eq h datalink
  | vlan => exact vlanMove_eq h
  | sized => exact sizedMove_eq h
  | snap => exact snapMove_eq h
  | arp => exact arpMove_eq h
  | ipx => exact take_plain (by decide) _ _ _ _
  | stp => exact stpMove_eq h
  | mpls => exact mplsMove_eq h
  | labelled => exact labelledMove_eq h
  | ipv4 depth => exact ipv4Move_eq h (hnestable depth rfl)
  | ipv6 depth => exact ipv6Move_eq h (hnestable depth rfl)
  | quoted depth => exact quotedMove_eq h (hnestable depth rfl)
  | tcp depth => exact tcpMove_eq h depth
  | udp depth => exact udpMove_eq h depth
  | sctp depth => exact take_plain (by decide) _ _ _ _
  | gre depth => exact greMove_eq h (hnestable depth rfl)
  | icmp4 depth => exact icmp4Move_eq h depth
  | icmp6 depth => exact icmp6Move_eq h (hnestable depth rfl)
  | nothing ending => rfl

theorem Nestable.descends (h : Nestable expected) (hdescends : expected.Descends next) :
    Nestable next := by
  intro depth hdepth
  cases hip : next.ipDepth? with
  | none => exact h depth (hdescends.kept depth hip hdepth)
  | some entered =>
      have hentered := (hdescends.entered entered hip).1
      cases next <;> simp_all [Expected.ipDepth?, Expected.depth?]

end Chain

end Checked

/-- Entries that end not far behind the start of their header. -/
def Members.Near (members : Members) : Prop :=
  members.start + total Entry.length members.run.items < 2 ^ 32

/-- A header that ends, with all it carries and is trailed by, not far behind its start. -/
structure Layer.Near (layer : Layer) : Prop where
  span_lt : layer.span < 2 ^ 32
  members : layer.members.Near
  trailers : ∀ trailers, layer.trailers = some trailers →
    ∀ trailer ∈ trailers, trailer.members.Near

theorem Members.near_none : Members.none.Near :=
  show 0 < 2 ^ 32 by decide

theorem Members.Within.near {members : Members} {length : Nat} (h : members.Within length)
    (hlength : length < 2 ^ 32) : members.Near :=
  Nat.lt_of_le_of_lt h hlength

section Near

variable {expected next : Expected} {rest : Bytes} {layer : Layer}

theorem Layer.near_plain {length : Nat} (h : length < 2 ^ 32) (kind : HeaderKind) (depth : Nat)
    (marks : List Mark) : (Layer.plain kind depth length marks).Near :=
  ⟨by rwa [Layer.span_plain], Members.near_none, by simp [Layer.plain]⟩

theorem Layer.near_carrier {layer : Layer} (hlength : layer.length < 2 ^ 32)
    (htrailers : layer.trailers = none) (hmembers : layer.members.Near) : layer.Near :=
  ⟨by simpa [Layer.span, htrailers] using hlength, hmembers, by simp [htrailers]⟩

theorem extensionTrailers_near (code : Nat) (rest : Bytes) :
    ∀ trailer ∈ (extensionTrailers code rest).items, trailer.members.Near := by
  refine (scans_scan extensionStep_advances (some code) rest).forall_items ?_
  intro state rest trailer size next hmove
  obtain ⟨_, header, _, _, htrailer, _⟩ := extensionStep_take hmove
  have hlt := Checked.extensionTrailer_length_lt htrailer
  obtain ⟨_, _, hform⟩ := (extensionTrailer_isExtension htrailer).header
  split at hform
  · exact hform.2.near (by omega)
  · rw [hform]
    exact Members.near_none

theorem Layer.near_ipv6 (hrest : rest.length ≤ 65535) (depth code : Nat) :
    Layer.Near ⟨.ipv6, depth, 40, [.network .ipv6], .none,
      some (extensionTrailers code (rest.drop 40)).items⟩ := by
  have htotal := Checked.total_extensionTrailers_le code (rest.drop 40)
  rw [List.length_drop] at htotal
  refine ⟨?_, Members.near_none, ?_⟩
  · simp only [Layer.span, Option.getD_some]
    omega
  · rintro trailers htrailers
    cases htrailers
    exact extensionTrailers_near _ _

/-- Every header that is found ends not far behind its start, whatever its length fields say. -/
theorem Finds.near (h : Finds rest expected layer next) (hrest : rest.length ≤ 65535) :
    layer.Near := by
  induction h with
  | novellFrame | ethernetCut _ | ethernet _ | vlanCut _ | vlan _ | markedIpx _ | snapCut _
  | snap _ | ipx | mpls _ | udpCut _ | udp _ _ | sctp | icmp4Echo _ _ | icmp4 _ _ | icmp6Error _ _
  | icmp6Echo _ _ | icmp6 _ _ => exact Layer.near_plain (by decide) _ _ _
  | llc _ _ _ _ _ => exact Layer.near_plain (by split <;> decide) _ _ _
  | arp hhardware hprotocol =>
      have := Bytes.u8?_lt hhardware
      have := Bytes.u8?_lt hprotocol
      exact Layer.near_plain (by omega) _ _ _
  | stp _ hlength =>
      have hshort : ∀ unit ∈ bridgeUnits, unit.2 < 2 ^ 32 := by decide
      exact Layer.near_plain (hshort _ hlength) _ _ _
  | gre _ _ hlength =>
      have := Checked.greLength?_le hlength
      exact Layer.near_plain (by omega) _ _ _
  | ipv4 hbyte _ hlength _ _ =>
      have := Bytes.u8?_lt hbyte
      exact Layer.near_carrier (by dsimp only; omega) rfl
        ((optionEntries_within_header _ hlength _).near (by omega))
  | tcp hbyte hlength =>
      have := Bytes.u8?_lt hbyte
      exact Layer.near_carrier (by dsimp only; omega) rfl
        ((optionEntries_within_header _ hlength _).near (by omega))
  | ipv6Cut _ _ _ _ | ipv6 _ _ _ _ => exact Layer.near_ipv6 hrest _ _
  | labelledIpv4 _ _ _ ih | labelledIpv6 _ _ _ ih | quotedIpv4 _ _ _ ih
  | quotedIpv6 _ _ _ ih => exact ih
  | @icmp6Discovery _ _ length _ _ hkind =>
      have hshort : ∀ message ∈ icmp6Discoveries, message.2.2 < 2 ^ 16 := by decide
      have hlength := hshort _ hkind
      have htotal := Checked.total_ndEntries_le (rest.drop length)
      rw [List.length_drop] at htotal
      refine Layer.near_carrier (by dsimp only at hlength ⊢; omega) rfl ?_
      simp only [Members.Near] at hlength ⊢
      omega
  | icmp6Report _ =>
      -- The last record may end behind the bytes, as far as its counts reach.
      refine ⟨?_, Members.near_none, ?_⟩
      · have htotal := Checked.total_addressRecords_le ((Bytes.u16? rest 6).getD 0) (rest.drop 8)
        rw [List.length_drop] at htotal
        simp only [Layer.span, Option.getD_some]
        omega
      · rintro trailers htrailers trailer htrailer
        cases htrailers
        rw [(addressRecords_isAddressRecord _ _ trailer htrailer).members]
        exact Members.near_none

theorem novellMarks_length_le (field : Nat) (payload : Bytes) :
    (novellMarks field payload).length ≤ 1 := by
  unfold novellMarks
  split <;> simp

theorem framingMarks_length_le (field : Nat) (payload : Bytes) :
    (framingMarks field payload).length ≤ 1 := by
  unfold framingMarks
  split
  · simp
  · exact novellMarks_length_le field payload

theorem Finds.marks_length_le (h : Finds rest expected layer next) :
    layer.marks.length ≤ 2 := by
  induction h with
  | ethernet _ => exact (framingMarks_length_le _ _).trans (by decide)
  | vlan _ => exact Nat.succ_le_succ (novellMarks_length_le _ _)
  | labelledIpv4 _ _ _ ih | labelledIpv6 _ _ _ ih | quotedIpv4 _ _ _ ih
  | quotedIpv6 _ _ _ ih => exact ih
  | _ => simp [Layer.plain]

end Near

namespace Checked

section Chain

variable {captured : Bytes} {expected : Expected} {offset : Nat}

theorem chainStep_follows (captured : Bytes) (hcaptured : captured.length ≤ 65535) :
    Follows captured 0 (chainStep captured) Dissection.chainStep (fun _ state => state)
      Nestable := by
  refine .of_eq (fun expected offset hnestable h => chainStep_eq h hnestable) ?_
  intro expected offset hnestable
  cases hmove : Dissection.chainStep expected (captured.drop offset) with
  | stop ending => trivial
  | take layer span next =>
      obtain ⟨rfl, hfinds⟩ := chainStep_eq_take_iff.mp hmove
      have hrest : (captured.drop offset).length ≤ 65535 := by
        rw [List.length_drop]
        omega
      exact ⟨(hfinds.near hrest).span_lt, hnestable.descends hfinds.descends⟩

theorem chain_eq (h : Readable captured 0 offset) (hnestable : Nestable expected) :
    chain captured expected offset = .ok (Dissection.chain expected (captured.drop offset)) :=
  walk_eq Ending.silent chainStep_advances (chainStep_follows captured h.captured_le) (by decide)
    hnestable h

end Chain

end Checked

end Dissection

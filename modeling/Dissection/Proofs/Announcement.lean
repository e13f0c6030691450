import Dissection.Proofs.Headers

namespace Dissection

open Bytes

/-- The IP protocol number of a header. -/
def HeaderKind.ipNumber? : HeaderKind → Option Nat
  | .icmp4 | .icmp4EchoRequest | .icmp4EchoReply => some 1
  | .ipv4 => some 4
  | .tcp => some 6
  | .udp => some 17
  | .ipv6 => some 41
  | .gre => some 47
  | .icmp6 | .icmp6EchoRequest | .icmp6EchoReply | .icmp6DestinationUnreachable
  | .icmp6TimeExceeded | .icmp6ParameterProblem | .icmp6RouterSolicitation
  | .icmp6RouterAdvertisement | .icmp6NeighborSolicitation | .icmp6NeighborAdvertisement
  | .icmp6ListenerReport => some 58
  | .sctp => some 132
  | _ => none

/-- The header is an IP header of the version that the first byte gives. -/
def HeaderKind.HasVersion (kind : HeaderKind) (rest : Bytes) : Prop :=
  ∃ byte, u8? rest 0 = some byte ∧
    (kind = .ipv4 ∧ byte / 16 = 4 ∨ kind = .ipv6 ∧ byte / 16 = 6)

/-- The headers that are found where one is expected. -/
def Expected.Yields (expected : Expected) (rest : Bytes) (kind : HeaderKind) : Prop :=
  match expected with
  | .ethernet _ => kind = .ethernet
  | .vlan => kind = .vlan
  | .sized =>
      kind = .ipx ∧ u16? rest 0 = some 0xFFFF ∨
        kind = .llc ∧ ∃ word, u16? rest 0 = some word ∧ word ≠ 0xFFFF
  | .snap => kind = .snap
  | .arp => kind = .arp
  | .ipx => kind = .ipx
  | .stp => kind = .stp
  | .mpls => kind = .mpls
  | .labelled | .quoted _ => kind.HasVersion rest
  | .ipv4 _ => kind = .ipv4
  | .ipv6 _ => kind = .ipv6
  | .tcp _ => kind = .tcp
  | .udp _ => kind = .udp
  | .sctp _ => kind = .sctp
  | .gre _ => kind = .gre
  | .icmp4 _ => kind.ipNumber? = some 1
  | .icmp6 _ => kind.ipNumber? = some 58
  | .nothing _ => False

theorem Finds.yields {expected next : Expected} {rest : Bytes} {layer : Layer}
    (h : Finds rest expected layer next) : expected.Yields rest layer.kind := by
  induction h with
  | markedIpx hmarker => exact .inl ⟨rfl, hmarker⟩
  | llc hword hother _ _ _ => exact .inr ⟨rfl, _, hword, hother⟩
  | labelledIpv4 hbyte hversion _ ih | quotedIpv4 hbyte hversion _ ih =>
      exact ⟨_, hbyte, .inl ⟨ih, hversion⟩⟩
  | labelledIpv6 hbyte hversion _ ih | quotedIpv6 hbyte hversion _ ih =>
      exact ⟨_, hbyte, .inr ⟨ih, hversion⟩⟩
  | icmp4Echo _ hkind =>
      have hnumber : ∀ message ∈ icmp4Echoes, message.2.ipNumber? = some 1 := by decide
      exact hnumber _ hkind
  | icmp6Error _ hkind =>
      have hnumber : ∀ message ∈ icmp6Errors, message.2.ipNumber? = some 58 := by decide
      exact hnumber _ hkind
  | icmp6Echo _ hkind =>
      have hnumber : ∀ message ∈ icmp6Echoes, message.2.ipNumber? = some 58 := by decide
      exact hnumber _ hkind
  | icmp6Discovery _ hkind =>
      have hnumber : ∀ message ∈ icmp6Discoveries, message.2.1.ipNumber? = some 58 := by decide
      exact hnumber _ hkind
  | _ => rfl

namespace Expected

/-- Whether a frame may begin with what is expected. -/
def isEthernet : Expected → Bool
  | .ethernet _ => true
  | _ => false

theorem isEthernet_nested (depth : Nat) {inside : Nat → Expected}
    (h : ∀ depth, (inside depth).isEthernet = false) :
    (nested depth inside).isEthernet = false := by
  unfold nested
  split
  · exact h _
  · rfl

theorem isEthernet_ofEtherType (etherType : Nat) :
    (ofEtherType etherType).isEthernet = false := by
  unfold ofEtherType
  split <;> rfl

theorem isEthernet_ofTypeField (field : Nat) : (ofTypeField field).isEthernet = false := by
  unfold ofTypeField
  split
  · rfl
  · split
    · rfl
    · exact isEthernet_ofEtherType field

theorem isEthernet_ofIpNumber (depth number : Nat) :
    (ofIpNumber depth number).isEthernet = false := by
  unfold ofIpNumber
  split
  all_goals first
    | rfl
    | exact isEthernet_nested depth fun _ => rfl

theorem isEthernet_ofGrePayload (depth etherType : Nat) :
    (ofGrePayload depth etherType).isEthernet = false := by
  unfold ofGrePayload
  split
  all_goals first
    | rfl
    | exact isEthernet_nested depth fun _ => rfl

theorem isEthernet_ofServicePoints (destination source control : Nat) :
    (ofServicePoints destination source control).isEthernet = false := by
  unfold ofServicePoints
  split <;> rfl

end Expected

theorem Finds.isEthernet_next {expected next : Expected} {rest : Bytes} {layer : Layer}
    (h : Finds rest expected layer next) : next.isEthernet = false := by
  induction h with
  | ethernet _ | vlan _ => exact Expected.isEthernet_ofTypeField _
  | llc _ _ _ _ _ => exact Expected.isEthernet_ofServicePoints _ _ _
  | snap _ => exact Expected.isEthernet_ofEtherType _
  | mpls _ => split <;> rfl
  | ipv4 _ _ _ _ _ =>
      split
      · rfl
      · exact Expected.isEthernet_ofIpNumber _ _
  | ipv6 _ _ _ _ => exact Expected.isEthernet_ofIpNumber _ _
  | labelledIpv4 _ _ _ ih | labelledIpv6 _ _ _ ih | quotedIpv4 _ _ _ ih
  | quotedIpv6 _ _ _ ih => exact ih
  | gre _ _ _ => exact Expected.isEthernet_ofGrePayload _ _
  | icmp6Error _ _ => exact Expected.isEthernet_nested _ fun _ => rfl
  | _ => rfl

/-- What an EtherType has to be for a header to follow it. -/
def HeaderKind.HasEtherType (kind : HeaderKind) (etherType : Nat) : Prop :=
  match kind with
  | .ipv4 => etherType = 0x0800
  | .ipv6 => etherType = 0x86DD
  | .arp => etherType = 0x0806 ∨ etherType = 0x8035
  | .mpls => etherType = 0x8847 ∨ etherType = 0x8848
  | .ipx => etherType = 0x8137
  | _ => False

namespace Expected

variable {rest : Bytes} {kind : HeaderKind}

theorem hasEtherType_of_yields {etherType : Nat}
    (h : (ofEtherType etherType).Yields rest kind) : kind.HasEtherType etherType := by
  unfold ofEtherType at h
  split at h
  all_goals first
    | exact h.elim
    | (cases (show kind = _ from h); first | rfl | exact .inl rfl | exact .inr rfl)

theorem yields_of_nested {depth : Nat} {inside : Nat → Expected}
    (h : (nested depth inside).Yields rest kind) : (inside (depth + 1)).Yields rest kind := by
  unfold nested at h
  split at h
  · exact h
  · exact h.elim

theorem ipNumber?_of_yields {depth number : Nat}
    (h : (ofIpNumber depth number).Yields rest kind) : kind.ipNumber? = some number := by
  unfold ofIpNumber at h
  split at h
  case h_4 | h_3 => exact h
  case h_7 =>
    cases (show kind = .ipv4 from yields_of_nested h)
    rfl
  case h_8 =>
    cases (show kind = .ipv6 from yields_of_nested h)
    rfl
  all_goals first
    | exact h.elim
    | (cases (show kind = _ from h); rfl)

theorem grePayload_of_yields {depth etherType : Nat}
    (h : (ofGrePayload depth etherType).Yields rest kind) :
    kind = .ipv4 ∧ etherType = 0x0800 ∨ kind = .ipv6 ∧ etherType = 0x86DD := by
  unfold ofGrePayload at h
  split at h
  · exact .inl ⟨yields_of_nested h, rfl⟩
  · exact .inr ⟨yields_of_nested h, rfl⟩
  · exact h.elim

theorem servicePoints_of_yields {destination source control : Nat}
    (h : (ofServicePoints destination source control).Yields rest kind) :
    kind = .snap ∧ destination = 0xAA ∧ source = 0xAA ∧ control = 0x03 ∨
      kind = .ipx ∧ destination = 0xE0 ∧ source = 0xE0 ∨
        kind = .stp ∧ destination = 0x42 ∧ source = 0x42 := by
  unfold ofServicePoints at h
  split at h
  · exact .inl ⟨h, rfl, rfl, rfl⟩
  · exact .inr (.inl ⟨h, rfl, rfl⟩)
  · exact .inr (.inr ⟨h, rfl, rfl⟩)
  · exact h.elim

theorem typeField_of_yields {field : Nat} (h : (ofTypeField field).Yields rest kind) :
    kind.HasEtherType field ∨
      kind = .vlan ∧ (field = 0x8100 ∨ field = 0x88A8 ∨ field = 0x9100) ∨
        field < 0x0600 ∧ sized.Yields rest kind := by
  unfold ofTypeField at h
  split at h
  · rename_i htag
    rw [EtherType.isTag, Bool.or_eq_true, Bool.or_eq_true, decide_eq_true_eq,
      decide_eq_true_eq, decide_eq_true_eq, or_assoc] at htag
    exact .inr (.inl ⟨h, htag⟩)
  · split at h
    · rename_i hlength
      exact .inr (.inr ⟨hlength, h⟩)
    · exact .inl (hasEtherType_of_yields h)

end Expected

end Dissection

import Mathlib.Tactic.ByContra
import Dissection.Proofs.Announcement
import Dissection.Proofs.CutBytes
import Dissection.Proofs.LayerShape

namespace Dissection

open Bytes

/-- The length of an ICMPv6 message of a type, without what trails it. -/
def icmp6Length (type : Nat) : Nat :=
  match type with
  | 1 | 3 | 4 | 128 | 129 | 133 | 143 => 8
  | 134 => 16
  | 135 | 136 => 24
  | _ => 4

theorem icmp6Length_pos (type : Nat) : 0 < icmp6Length type := by
  unfold icmp6Length
  split <;> decide

/-- The source route at the front of the bytes: entries of four bytes and a rest of the
length they give, up to one without an address family and a length. -/
inductive SourceRoute : Bytes → Nat → Prop
  | last {rest : Bytes} (hfamily : u16? rest 0 = some 0) (hlength : u8? rest 3 = some 0) :
      SourceRoute rest 4
  | entry {rest : Bytes} {family length behind : Nat} (hfamily : u16? rest 0 = some family)
      (hlength : u8? rest 3 = some length) (hmore : ¬(family = 0 ∧ length = 0))
      (hbehind : SourceRoute (rest.drop (4 + length)) behind) :
      SourceRoute rest (4 + length + behind)

namespace HeaderKind

/-- The length that the bytes give a header of a kind at their front, whether it is well
formed or not. Control messages are told apart by their type, and spanning tree messages
of an unknown type are measured up to their type. -/
def Measures (kind : HeaderKind) (rest : Bytes) (length : Nat) : Prop :=
  match kind with
  | .ethernet => length = 14
  | .vlan | .mpls => length = 4
  | .llc => ∃ control, u8? rest 2 = some control ∧ length = if control % 4 = 3 then 3 else 4
  | .snap => length = 5
  | .arp =>
      ∃ hardware protocol, u8? rest 4 = some hardware ∧ u8? rest 5 = some protocol ∧
        length = 8 + 2 * (hardware + protocol)
  | .ipx => length = 30
  | .stp =>
      ∃ type, u8? rest 3 = some type ∧ length = if type = 0 then 35 else if type = 2 then 36 else 4
  | .ipv4 => ∃ byte, u8? rest 0 = some byte ∧ length = byte % 16 * 4
  | .ipv6 => length = 40
  | .tcp => ∃ byte, u8? rest 12 = some byte ∧ length = byte / 16 * 4
  | .udp => length = 8
  | .sctp => length = 12
  | .gre =>
      ∃ flags, u16? rest 0 = some flags ∧
        if flags.testBit 14 then
          ∃ route, SourceRoute (rest.drop (greFixedLength flags)) route ∧
            length = greFixedLength flags + route
        else length = greFixedLength flags
  | .icmp4 | .icmp4EchoRequest | .icmp4EchoReply =>
      ∃ type, u8? rest 0 = some type ∧ length = if type = 8 ∨ type = 0 then 8 else 4
  | .icmp6 | .icmp6EchoRequest | .icmp6EchoReply | .icmp6DestinationUnreachable
  | .icmp6TimeExceeded | .icmp6ParameterProblem | .icmp6RouterSolicitation
  | .icmp6RouterAdvertisement | .icmp6NeighborSolicitation | .icmp6NeighborAdvertisement
  | .icmp6ListenerReport =>
      ∃ type, u8? rest 0 = some type ∧ length = icmp6Length type

/-- The bytes fail the check that a header of a kind has to pass: a version and a least
length, or a known type. -/
def Fails (kind : HeaderKind) (rest : Bytes) : Prop :=
  match kind with
  | .ipv4 => ∃ byte, u8? rest 0 = some byte ∧ (byte / 16 ≠ 4 ∨ byte % 16 < 5)
  | .ipv6 => ∃ byte, u8? rest 0 = some byte ∧ byte / 16 ≠ 6
  | .tcp => ∃ byte, u8? rest 12 = some byte ∧ byte / 16 < 5
  | .stp => ∃ type, u8? rest 3 = some type ∧ type ≠ 0 ∧ type ≠ 2 ∧ type ≠ 128
  | _ => False

variable {kind : HeaderKind} {rest : Bytes} {length : Nat}

theorem Measures.of_icmp4 (h : kind.Measures rest length) (hkind : kind.ipNumber? = some 1) :
    ∃ type, u8? rest 0 = some type ∧ length = if type = 8 ∨ type = 0 then 8 else 4 := by
  cases kind <;> first | exact h | cases hkind

theorem Measures.of_icmp6 (h : kind.Measures rest length) (hkind : kind.ipNumber? = some 58) :
    ∃ type, u8? rest 0 = some type ∧ length = icmp6Length type := by
  cases kind <;> first | exact h | cases hkind

end HeaderKind

/-- The header that is expected is at the front of the bytes, `length` bytes long. -/
def Expected.Meets (expected : Expected) (rest : Bytes) (length : Nat) : Prop :=
  ∃ layer next, Finds rest expected layer next ∧ layer.length = length

section Meets

variable {rest : Bytes} {length count : Nat}

theorem SourceRoute.scan_take (h : SourceRoute rest length) (hlength : length ≤ count)
    (hcount : count ≤ rest.length) :
    (scan sourceRouteStep false false (rest.take count)).verdict = true ∧
      total id (scan sourceRouteStep false false (rest.take count)).items = length := by
  have hend : ∀ bytes, sourceRouteStep true bytes = .stop true := fun _ => rfl
  induction h generalizing count with
  | @last rest hfamily hzero =>
      have hmove : sourceRouteStep false (rest.take count) = .take 4 4 true := by
        rw [sourceRouteStep, u16?_take _ (by omega), u8?_take _ (by omega), hfamily, hzero]
        rfl
      rw [scan_of_take false sourceRouteStep_advances hmove (by rw [List.length_take]; omega),
        scan_of_stop false sourceRouteStep_advances (hend _)]
      exact ⟨rfl, rfl⟩
  | @entry rest family size behind hfamily hsize hmore hbehind ih =>
      have hmove : sourceRouteStep false (rest.take count) = .take (4 + size) (4 + size) false := by
        rw [sourceRouteStep, u16?_take _ (by omega), u8?_take _ (by omega), hfamily, hsize]
        simpa using hmore
      obtain ⟨hverdict, htotal⟩ := ih (show behind ≤ count - (4 + size) by omega)
        (by rw [List.length_drop]; omega)
      rw [← List.drop_take] at hverdict htotal
      rw [scan_of_take false sourceRouteStep_advances hmove (by rw [List.length_take]; omega)]
      exact ⟨hverdict, by rw [Scanned.cons_items, total_cons, htotal]; rfl⟩

theorem SourceRoute.length_of_take (h : SourceRoute rest length) (hlength : length ≤ count)
    (hcount : count ≤ rest.length) : sourceRouteLength? (rest.take count) = some length := by
  obtain ⟨hverdict, htotal⟩ := h.scan_take hlength hcount
  unfold sourceRouteLength?
  dsimp only
  rw [if_pos hverdict, htotal]

theorem meets_ipv4 (depth : Nat) (hmeasures : HeaderKind.ipv4.Measures rest length)
    (hpass : ¬HeaderKind.ipv4.Fails rest) (hlength : length ≤ count)
    (hcount : count ≤ rest.length) : (Expected.ipv4 depth).Meets (rest.take count) length := by
  have hsize := List.length_take_of_le hcount
  obtain ⟨byte, hbyte, rfl⟩ := hmeasures
  have hversion : byte / 16 = 4 := by
    by_contra hversion
    exact hpass ⟨byte, hbyte, .inl hversion⟩
  have hleast : 5 ≤ byte % 16 := by
    by_contra hleast
    exact hpass ⟨byte, hbyte, .inr (Nat.lt_of_not_le hleast)⟩
  obtain ⟨word, hword⟩ := exists_u16? (rest.take count) 6 (by omega)
  obtain ⟨number, hnumber⟩ := exists_u8? (rest.take count) 9 (by omega)
  rw [← u8?_take rest (by omega : 0 < count)] at hbyte
  exact ⟨_, _, .ipv4 hbyte hversion (by omega) hword hnumber, rfl⟩

theorem meets_ipv6 (depth : Nat) (hmeasures : HeaderKind.ipv6.Measures rest length)
    (hpass : ¬HeaderKind.ipv6.Fails rest) (hlength : length ≤ count)
    (hcount : count ≤ rest.length) : (Expected.ipv6 depth).Meets (rest.take count) length := by
  have hsize := List.length_take_of_le hcount
  cases (show length = 40 from hmeasures)
  obtain ⟨byte, hbyte⟩ := exists_u8? rest 0 (by omega)
  have hversion : byte / 16 = 6 := by
    by_contra hversion
    exact hpass ⟨byte, hbyte, hversion⟩
  obtain ⟨code, hcode⟩ := exists_u8? (rest.take count) 6 (by omega)
  rw [← u8?_take rest (by omega : 0 < count)] at hbyte
  cases hverdict : (extensionTrailers code ((rest.take count).drop 40)).verdict with
  | none => exact ⟨_, _, .ipv6Cut hbyte hversion hcode hverdict, rfl⟩
  | some number => exact ⟨_, _, .ipv6 hbyte hversion hcode hverdict, rfl⟩

theorem HeaderKind.HasVersion.finds {kind : HeaderKind} (depth : Nat) (h : kind.HasVersion rest)
    (hmeasures : kind.Measures rest length) (hpass : ¬kind.Fails rest) (hlength : length ≤ count)
    (hcount : count ≤ rest.length) :
    ∃ byte layer next, u8? (rest.take count) 0 = some byte ∧ layer.length = length ∧
      (byte / 16 = 4 ∧ Finds (rest.take count) (.ipv4 depth) layer next ∨
        byte / 16 = 6 ∧ Finds (rest.take count) (.ipv6 depth) layer next) := by
  obtain ⟨byte, hbyte, hkind⟩ := h
  have hfirst (hleast : 0 < count) : u8? (rest.take count) 0 = some byte :=
    (u8?_take rest hleast).trans hbyte
  rcases hkind with ⟨rfl, hversion⟩ | ⟨rfl, hversion⟩
  · obtain ⟨layer, next, hfinds, hlayer⟩ := meets_ipv4 depth hmeasures hpass hlength hcount
    have hpos := hfinds.shaped.length_pos
    exact ⟨byte, layer, next, hfirst (by omega), hlayer, .inl ⟨hversion, hfinds⟩⟩
  · obtain ⟨layer, next, hfinds, hlayer⟩ := meets_ipv6 depth hmeasures hpass hlength hcount
    have hpos := hfinds.shaped.length_pos
    exact ⟨byte, layer, next, hfirst (by omega), hlayer, .inr ⟨hversion, hfinds⟩⟩

theorem meets_gre (depth : Nat) (hmeasures : HeaderKind.gre.Measures rest length)
    (hlength : length ≤ count) (hcount : count ≤ rest.length) :
    (Expected.gre depth).Meets (rest.take count) length := by
  have hsize := List.length_take_of_le hcount
  obtain ⟨flags, hflags, hroute⟩ := hmeasures
  have hfixed : 4 ≤ greFixedLength flags := by
    unfold greFixedLength
    omega
  have hgre : greLength? flags (rest.take count) = some length ∧ 4 ≤ length := by
    rw [greLength?]
    split at hroute
    · rename_i hflag
      obtain ⟨route, hroute, rfl⟩ := hroute
      rw [if_pos hflag, List.drop_take,
        hroute.length_of_take (by omega) (by rw [List.length_drop]; omega)]
      exact ⟨rfl, by omega⟩
    · rename_i hflag
      rw [if_neg hflag, hroute]
      exact ⟨rfl, hfixed⟩
  obtain ⟨type, htype⟩ := exists_u16? (rest.take count) 2 (by omega)
  rw [← u16?_take rest (by omega : 0 + 1 < count)] at hflags
  exact ⟨_, _, .gre hflags htype hgre.1, rfl⟩

theorem meets_stp {type : Nat} (htype : u8? rest 3 = some type)
    (hknown : ¬(type ≠ 0 ∧ type ≠ 2 ∧ type ≠ 128)) :
    Expected.stp.Meets rest (if type = 0 then 35 else if type = 2 then 36 else 4) := by
  by_cases hconfiguration : type = 0
  · subst hconfiguration
    exact ⟨_, _, .stp htype (by decide : (0, 35) ∈ bridgeUnits), rfl⟩
  · by_cases hrapid : type = 2
    · subst hrapid
      exact ⟨_, _, .stp htype (by decide : (2, 36) ∈ bridgeUnits), rfl⟩
    · obtain rfl : type = 128 := by omega
      exact ⟨_, _, .stp htype (by decide : (128, 4) ∈ bridgeUnits), rfl⟩

theorem meets_icmp4 (depth : Nat) {type : Nat} (htype : u8? rest 0 = some type) :
    (Expected.icmp4 depth).Meets rest (if type = 8 ∨ type = 0 then 8 else 4) := by
  by_cases hrequest : type = 8
  · subst hrequest
    exact ⟨_, _, .icmp4Echo htype (by decide : (8, .icmp4EchoRequest) ∈ icmp4Echoes), rfl⟩
  · by_cases hreply : type = 0
    · subst hreply
      exact ⟨_, _, .icmp4Echo htype (by decide : (0, .icmp4EchoReply) ∈ icmp4Echoes), rfl⟩
    · rw [if_neg (by omega)]
      refine ⟨_, _, .icmp4 htype ?_, rfl⟩
      simp [icmp4Echoes, hrequest, hreply, Icmp4Type.echoRequest, Icmp4Type.echoReply]

theorem meets_icmp6 (depth : Nat) {type : Nat} (htype : u8? rest 0 = some type) :
    (Expected.icmp6 depth).Meets rest (icmp6Length type) := by
  have hmove : ∃ (layer : Layer) (next : Expected),
      chainStep (.icmp6 depth) rest = layer.then next ∧ layer.length = icmp6Length type := by
    rw [chainStep, icmp6Move, htype]
    dsimp only
    split
    case h_11 =>
      refine ⟨_, _, rfl, ?_⟩
      unfold icmp6Length
      split <;> first | rfl | contradiction
    all_goals exact ⟨_, _, rfl, rfl⟩
  obtain ⟨layer, next, hmove, hlength⟩ := hmove
  exact ⟨layer, next, (chainStep_eq_take_iff.mp hmove).2, hlength⟩

end Meets

/-- A header that is measured within the capture and passes its check is found where it is
expected. -/
theorem Expected.Yields.meets {expected : Expected} {rest : Bytes} {kind : HeaderKind}
    {length count : Nat} (h : expected.Yields rest kind) (hmeasures : kind.Measures rest length)
    (hpass : ¬kind.Fails rest) (hlength : length ≤ count) (hcount : count ≤ rest.length) :
    expected.Meets (rest.take count) length := by
  have hsize := List.length_take_of_le hcount
  cases expected with
  | ethernet datalink =>
      cases (show kind = .ethernet from h)
      cases (show length = 14 from hmeasures)
      cases datalink with
      | novellRaw => exact ⟨_, _, .novellFrame, rfl⟩
      | ethernet =>
          obtain ⟨field, hfield⟩ := exists_u16? (rest.take count) 12 (by omega)
          exact ⟨_, _, .ethernet hfield, rfl⟩
  | vlan =>
      cases (show kind = .vlan from h)
      cases (show length = 4 from hmeasures)
      obtain ⟨field, hfield⟩ := exists_u16? (rest.take count) 2 (by omega)
      exact ⟨_, _, .vlan hfield, rfl⟩
  | sized =>
      rcases h with ⟨rfl, hmarker⟩ | ⟨rfl, word, hword, hother⟩
      · cases (show length = 30 from hmeasures)
        rw [← u16?_take rest (by omega : 0 + 1 < count)] at hmarker
        exact ⟨_, _, .markedIpx hmarker, rfl⟩
      · obtain ⟨control, hcontrol, rfl⟩ := hmeasures
        have hleast : 3 ≤ count := by
          split at hlength <;> omega
        obtain ⟨destination, hdestination⟩ := exists_u8? (rest.take count) 0 (by omega)
        obtain ⟨source, hsource⟩ := exists_u8? (rest.take count) 1 (by omega)
        rw [← u16?_take rest (by omega : 0 + 1 < count)] at hword
        rw [← u8?_take rest (by omega : 2 < count)] at hcontrol
        exact ⟨_, _, .llc hword hother hdestination hsource hcontrol, rfl⟩
  | snap =>
      cases (show kind = .snap from h)
      cases (show length = 5 from hmeasures)
      obtain ⟨type, htype⟩ := exists_u16? (rest.take count) 3 (by omega)
      exact ⟨_, _, .snap htype, rfl⟩
  | arp =>
      cases (show kind = .arp from h)
      obtain ⟨hardware, protocol, hhardware, hprotocol, rfl⟩ := hmeasures
      rw [← u8?_take rest (by omega : 4 < count)] at hhardware
      rw [← u8?_take rest (by omega : 5 < count)] at hprotocol
      exact ⟨_, _, .arp hhardware hprotocol, rfl⟩
  | ipx =>
      cases (show kind = .ipx from h)
      exact ⟨_, _, .ipx, hmeasures.symm⟩
  | stp =>
      cases (show kind = .stp from h)
      obtain ⟨type, htype, rfl⟩ := hmeasures
      have hleast : 3 < count := by
        grind
      exact meets_stp ((u8?_take rest hleast).trans htype) fun hother => hpass ⟨type, htype, hother⟩
  | mpls =>
      cases (show kind = .mpls from h)
      cases (show length = 4 from hmeasures)
      obtain ⟨entry, hentry⟩ := exists_u32? (rest.take count) 0 (by omega)
      exact ⟨_, _, .mpls hentry, rfl⟩
  | labelled =>
      obtain ⟨byte, layer, next, hbyte, hlayer, ⟨hversion, hfinds⟩ | ⟨hversion, hfinds⟩⟩ :=
        HeaderKind.HasVersion.finds 0 h hmeasures hpass hlength hcount
      · exact ⟨layer, next, .labelledIpv4 hbyte hversion hfinds, hlayer⟩
      · exact ⟨layer, next, .labelledIpv6 hbyte hversion hfinds, hlayer⟩
  | quoted depth =>
      obtain ⟨byte, layer, next, hbyte, hlayer, ⟨hversion, hfinds⟩ | ⟨hversion, hfinds⟩⟩ :=
        HeaderKind.HasVersion.finds depth h hmeasures hpass hlength hcount
      · exact ⟨layer, next, .quotedIpv4 hbyte hversion hfinds, hlayer⟩
      · exact ⟨layer, next, .quotedIpv6 hbyte hversion hfinds, hlayer⟩
  | ipv4 depth =>
      cases (show kind = .ipv4 from h)
      exact meets_ipv4 depth hmeasures hpass hlength hcount
  | ipv6 depth =>
      cases (show kind = .ipv6 from h)
      exact meets_ipv6 depth hmeasures hpass hlength hcount
  | tcp depth =>
      cases (show kind = .tcp from h)
      obtain ⟨byte, hbyte, rfl⟩ := hmeasures
      have hleast : 20 ≤ byte / 16 * 4 := by
        by_contra hleast
        exact hpass ⟨byte, hbyte, by omega⟩
      rw [← u8?_take rest (by omega : 12 < count)] at hbyte
      exact ⟨_, _, .tcp hbyte hleast, rfl⟩
  | udp depth =>
      cases (show kind = .udp from h)
      cases (show length = 8 from hmeasures)
      obtain ⟨source, hsource⟩ := exists_u16? (rest.take count) 0 (by omega)
      obtain ⟨destination, hdestination⟩ :=
        exists_u16? (rest.take count) 2 (by omega)
      exact ⟨_, _, .udp hsource hdestination, rfl⟩
  | sctp depth =>
      cases (show kind = .sctp from h)
      exact ⟨_, _, .sctp, hmeasures.symm⟩
  | gre depth =>
      cases (show kind = .gre from h)
      exact meets_gre depth hmeasures hlength hcount
  | icmp4 depth =>
      obtain ⟨type, htype, rfl⟩ := hmeasures.of_icmp4 h
      have hleast : 0 < count := by
        split at hlength <;> omega
      exact meets_icmp4 depth ((u8?_take rest hleast).trans htype)
  | icmp6 depth =>
      obtain ⟨type, htype, rfl⟩ := hmeasures.of_icmp6 h
      have hleast := icmp6Length_pos type
      exact meets_icmp6 depth ((u8?_take rest (by omega)).trans htype)
  | nothing ending => exact h.elim

end Dissection

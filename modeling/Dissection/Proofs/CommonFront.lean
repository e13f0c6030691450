import Dissection.Proofs.CutLayers
import Dissection.Proofs.Hushing

namespace Dissection

open Bytes

namespace Bytes

/-- The first `count` bytes are the same. -/
def Agree (count : Nat) (bytes other : Bytes) : Prop :=
  bytes.take count = other.take count

section Agree

variable {count : Nat} {bytes other : Bytes}

theorem Agree.drop (h : Agree count bytes other) (start : Nat) :
    Agree (count - start) (bytes.drop start) (other.drop start) := by
  rw [Agree, ← List.drop_take, ← List.drop_take, h]

theorem Agree.length_le (h : Agree count bytes other) {size : Nat} (hcount : size ≤ count)
    (hsize : size ≤ bytes.length) : size ≤ other.length := by
  have hlength := congrArg List.length h
  rw [List.length_take, List.length_take] at hlength
  omega

theorem Agree.u8?_eq (h : Agree count bytes other) {offset : Nat} (hoffset : offset < count) :
    u8? other offset = u8? bytes offset := by
  rw [← u8?_take other hoffset, ← h, u8?_take bytes hoffset]

theorem Agree.u16?_eq (h : Agree count bytes other) {offset : Nat} (hoffset : offset + 1 < count) :
    u16? other offset = u16? bytes offset := by
  rw [← u16?_take other hoffset, ← h, u16?_take bytes hoffset]

theorem Agree.u32?_eq (h : Agree count bytes other) {offset : Nat} (hoffset : offset + 3 < count) :
    u32? other offset = u32? bytes offset := by
  rw [u32?, u32?, h.u16?_eq (by omega), h.u16?_eq hoffset]

end Agree

end Bytes

section Scans

variable {σ α ω : Type} {cut : ω} {count : Nat} {bytes other : Bytes}

theorem Confined.items_agree {step : Nat → Bytes → Move Nat α ω} (hstep : Advances step)
    (h : Confined step) {region : Nat} (hagree : Agree count bytes other)
    (hregion : region ≤ count) :
    (scan step cut region other).items = (scan step cut region bytes).items := by
  rw [← h.items_eq hstep other hregion, ← hagree, h.items_eq hstep bytes hregion]

/-- A step that takes an item by what it reads within it, up to what is left out of the item,
and ends with a verdict by what it has read before. -/
structure Rooted (step : σ → Bytes → Move σ α ω) (size : α → Nat) (hush : α → α) (verdict : ω) :
    Prop where
  size_eq : ∀ {state next : σ} {bytes : Bytes} {item : α} {length : Nat},
    step state bytes = .take item length next → length = size item
  take : ∀ {state next : σ} {bytes other : Bytes} {item : α} {length count : Nat},
    step state bytes = .take item length next → length ≤ count → Agree count bytes other →
      ∃ found, step state other = .take found length next ∧ hush found = hush item
  stop : ∀ {state : σ} {bytes : Bytes} (other : Bytes),
    step state bytes = .stop verdict → step state other = .stop verdict

theorem Rooted.scan_agree {step : σ → Bytes → Move σ α ω} {size : α → Nat} {hush : α → α}
    {verdict : ω} (hstep : Advances step) (h : Rooted step size hush verdict)
    (hcut : verdict ≠ cut) {state : σ} (hagree : Agree count bytes other)
    (hverdict : (scan step cut state bytes).verdict = verdict)
    (hcount : total size (scan step cut state bytes).items ≤ count) :
    (scan step cut state other).items.map hush = (scan step cut state bytes).items.map hush ∧
      (scan step cut state other).verdict = verdict := by
  have hscans : Scans step cut state bytes _ := scans_scan hstep _ _
  generalize scan step cut state bytes = found at hscans hverdict hcount ⊢
  induction hscans generalizing other count with
  | stop hmove =>
      subst hverdict
      rw [scan_of_stop cut hstep (h.stop other hmove)]
      exact ⟨rfl, rfl⟩
  | last _ _ => exact absurd hverdict.symm hcut
  | @take state next bytes item length behind hmove hlength _ ih =>
      rw [Scanned.cons_items, total_cons, ← h.size_eq hmove] at hcount
      obtain ⟨same, hsame, hhush⟩ := h.take hmove (by omega) hagree
      obtain ⟨hitems, hends⟩ := ih (hagree.drop length) hverdict (by omega)
      rw [scan_of_take cut hstep hsame (hagree.length_le (by omega) hlength)]
      refine ⟨?_, hends⟩
      rw [Scanned.cons_items, Scanned.cons_items, List.map_cons, List.map_cons, hhush, hitems]

end Scans

theorem rooted_sourceRouteStep : Rooted sourceRouteStep id id true := by
  constructor
  · intro finished next bytes item length hmove
    unfold sourceRouteStep at hmove
    split at hmove
    · cases hmove
    · split at hmove <;> cases hmove
      rfl
  · intro finished next bytes other item length count hmove hcount hagree
    refine ⟨item, ?_, rfl⟩
    unfold sourceRouteStep at hmove ⊢
    split at hmove
    · cases hmove
    · rename_i hfinished
      split at hmove
      · rename_i family size hfamily hsize
        cases hmove
        rw [if_neg hfinished, hagree.u16?_eq (by omega), hagree.u8?_eq (by omega), hfamily, hsize]
      · cases hmove
  · intro finished bytes other hmove
    unfold sourceRouteStep at hmove ⊢
    split at hmove
    · rename_i hfinished
      rw [if_pos hfinished]
    · split at hmove <;> cases hmove

section Headers

variable {count : Nat} {bytes other : Bytes}

theorem sourceRouteLength?_agree {length : Nat} (h : sourceRouteLength? bytes = some length)
    (hlength : length ≤ count) (hagree : Agree count bytes other) :
    sourceRouteLength? other = some length := by
  unfold sourceRouteLength? at h ⊢
  dsimp only at h ⊢
  split at h
  · rename_i hverdict
    injection h with htotal
    obtain ⟨hitems, hends⟩ := rooted_sourceRouteStep.scan_agree sourceRouteStep_advances
      (by decide) hagree hverdict (by omega)
    rw [List.map_id, List.map_id] at hitems
    rw [if_pos hends, hitems, htotal]
  · cases h

theorem greLength?_agree {flags length : Nat} (h : greLength? flags bytes = some length)
    (hlength : length ≤ count) (hagree : Agree count bytes other) :
    greLength? flags other = some length := by
  unfold greLength? at h ⊢
  dsimp only at h ⊢
  split at h
  · rename_i hroute
    obtain ⟨route, hroute?, rfl⟩ := Option.map_eq_some_iff.mp h
    rw [if_pos hroute,
      sourceRouteLength?_agree hroute? (by omega) (hagree.drop (greFixedLength flags))]
    rfl
  · rename_i hroute
    rw [if_neg hroute, h]

theorem four_le_greLength? {flags length : Nat} (h : greLength? flags bytes = some length) :
    4 ≤ length := by
  have hfixed : 4 ≤ greFixedLength flags := by
    unfold greFixedLength
    omega
  unfold greLength? at h
  dsimp only at h
  split at h
  · obtain ⟨route, _, rfl⟩ := Option.map_eq_some_iff.mp h
    omega
  · injection h with h
    omega

theorem hopByHopMembers_agree (hagree : Agree count bytes other) {length : Nat}
    (hlength : length ≤ count) :
    Members.hushed ⟨2, hopByHopEntries (length - 2) (other.drop 2)⟩ =
      Members.hushed ⟨2, hopByHopEntries (length - 2) (bytes.drop 2)⟩ := by
  have hitems : (hopByHopEntries (length - 2) (other.drop 2)).items =
      (hopByHopEntries (length - 2) (bytes.drop 2)).items :=
    confined_hopByHopStep.items_agree hopByHopStep_advances (hagree.drop 2) (by omega)
  rw [Members.hushed, Members.hushed, hitems]

theorem optionMembers_agree (recognize : Nat → Option ProtocolId) (hagree : Agree count bytes other)
    {length : Nat} (hlength : length ≤ count) :
    Members.hushed ⟨20, optionEntries recognize (length - 20) (other.drop 20)⟩ =
      Members.hushed ⟨20, optionEntries recognize (length - 20) (bytes.drop 20)⟩ := by
  have hitems : (optionEntries recognize (length - 20) (other.drop 20)).items =
      (optionEntries recognize (length - 20) (bytes.drop 20)).items :=
    (confined_optionStep recognize).items_agree (optionStep_advances recognize) (hagree.drop 20)
      (by omega)
  rw [Members.hushed, Members.hushed, hitems]

theorem extensionTrailer_agree {header : ExtensionHeader} {trailer : Trailer} {next : Option Nat}
    (h : extensionTrailer header bytes = some (trailer, next)) (hlength : trailer.length ≤ count)
    (hagree : Agree count bytes other) :
    ∃ same, extensionTrailer header other = some (same, next) ∧ same.length = trailer.length ∧
      same.hushed = trailer.hushed := by
  cases header with
  | encapsulatingSecurityPayload => exact ⟨trailer, h, rfl, rfl⟩
  | fragment =>
      simp only [extensionTrailer, Option.bind_eq_bind, Option.bind_eq_some_iff,
        Option.some.injEq, Prod.mk.injEq] at h ⊢
      obtain ⟨number, hnumber, word, hword, rfl, rfl⟩ := h
      dsimp only at hlength
      rw [← hagree.u8?_eq (by omega)] at hnumber
      rw [← hagree.u16?_eq (by omega)] at hword
      exact ⟨_, ⟨number, hnumber, word, hword, rfl, rfl⟩, rfl, rfl⟩
  | hopByHop =>
      simp only [extensionTrailer, Option.bind_eq_bind, Option.bind_eq_some_iff,
        Option.some.injEq, Prod.mk.injEq] at h ⊢
      obtain ⟨number, hnumber, units, hunits, rfl, rfl⟩ := h
      dsimp only at hlength
      rw [← hagree.u8?_eq (by omega)] at hnumber hunits
      refine ⟨_, ⟨number, hnumber, units, hunits, rfl, rfl⟩, rfl, ?_⟩
      rw [Trailer.hushed, Trailer.hushed, hopByHopMembers_agree hagree hlength]
  | _ =>
      simp only [extensionTrailer, Option.bind_eq_bind, Option.bind_eq_some_iff,
        Option.some.injEq, Prod.mk.injEq] at h ⊢
      obtain ⟨number, hnumber, units, hunits, rfl, rfl⟩ := h
      dsimp only at hlength
      rw [← hagree.u8?_eq (by omega)] at hnumber hunits
      exact ⟨_, ⟨number, hnumber, units, hunits, rfl, rfl⟩, rfl, rfl⟩

theorem rooted_extensionStep (number : Nat) :
    Rooted extensionStep Trailer.length Trailer.hushed (some number) := by
  constructor
  · intro state next bytes trailer length hmove
    obtain ⟨_, _, _, _, _, rfl⟩ := extensionStep_take hmove
    rfl
  · intro state next bytes other trailer length count hmove hcount hagree
    obtain ⟨code, header, rfl, hheader, htrailer, rfl⟩ := extensionStep_take hmove
    obtain ⟨same, hsame, hlength, hhushed⟩ := extensionTrailer_agree htrailer hcount hagree
    refine ⟨same, ?_, hhushed⟩
    simp only [extensionStep, hheader, hsame, hlength]
  · intro state bytes other hmove
    cases state with
    | none => exact hmove
    | some code =>
        unfold extensionStep at hmove ⊢
        cases hheader : ExtensionHeader.ofCode? code with
        | none => simpa only [hheader] using hmove
        | some header =>
            simp only [hheader] at hmove
            split at hmove <;> cases hmove

theorem novellMarks_agree (field : Nat) {start : Nat} (hagree : Agree count bytes other)
    (hcount : start + 2 ≤ count) :
    novellMarks field (other.drop start) = novellMarks field (bytes.drop start) := by
  rw [novellMarks, novellMarks, (hagree.drop start).u16?_eq (by omega)]

theorem framingMarks_agree (field : Nat) {start : Nat} (hagree : Agree count bytes other)
    (hcount : start + 2 ≤ count) :
    framingMarks field (other.drop start) = framingMarks field (bytes.drop start) := by
  rw [framingMarks, framingMarks, novellMarks_agree field hagree hcount]

end Headers

/-- A header behind which no bytes are looked at, once it has been measured. -/
def HeaderKind.isFinal : HeaderKind → Bool
  | .tcp | .udp | .sctp | .icmp4 | .icmp4EchoRequest | .icmp4EchoReply | .icmp6
  | .icmp6EchoRequest | .icmp6EchoReply | .arp | .ipx | .stp => true
  | _ => false

/-- What is common has room for a header and, unless nothing can follow it, for what tells
which header follows. -/
structure Layer.Rooms (layer : Layer) (next : Expected) (count : Nat) : Prop where
  span_le : layer.span ≤ count
  more : layer.kind.isFinal = true ∨ layer.span + 2 ≤ count ∧ ∀ ending, next ≠ .nothing ending

theorem Layer.Rooms.length_le {layer : Layer} {next : Expected} {count : Nat}
    (h : layer.Rooms next count) : layer.length ≤ count :=
  (Nat.le_add_right _ _).trans h.span_le

theorem Layer.Rooms.more_of_not_final {layer : Layer} {next : Expected} {count : Nat}
    (h : layer.Rooms next count) (hkind : layer.kind.isFinal = false) :
    layer.span + 2 ≤ count ∧ ∀ ending, next ≠ .nothing ending := by
  simpa [hkind] using h.more

section Finds

variable {count : Nat} {bytes other : Bytes} {expected next : Expected} {layer : Layer}

theorem Finds.final (h : Finds bytes expected layer next) (hfinal : layer.kind.isFinal = true) :
    (∃ ending, next = .nothing ending) ∧ layer.trailers = none ∧ 2 ≤ layer.length := by
  induction h with
  | labelledIpv4 _ _ _ ih | labelledIpv6 _ _ _ ih | quotedIpv4 _ _ _ ih
  | quotedIpv6 _ _ _ ih => exact ih hfinal
  | arp _ _ => exact ⟨⟨_, rfl⟩, rfl, by dsimp only [Layer.plain]; omega⟩
  | tcp _ hlength => exact ⟨⟨_, rfl⟩, rfl, by dsimp only; omega⟩
  | stp _ hlength =>
      have hlengths : ∀ unit ∈ bridgeUnits, 2 ≤ unit.2 := by decide
      exact ⟨⟨_, rfl⟩, rfl, hlengths _ hlength⟩
  | icmp6Error _ hkind =>
      have hkinds : ∀ message ∈ icmp6Errors, message.2.isFinal = false := by decide
      rw [Layer.plain, hkinds _ hkind] at hfinal
      cases hfinal
  | icmp6Discovery _ hkind =>
      have hkinds : ∀ message ∈ icmp6Discoveries, message.2.1.isFinal = false := by decide
      rw [hkinds _ hkind] at hfinal
      cases hfinal
  | ipx | markedIpx _ | udpCut _ | udp _ _ | sctp | icmp4Echo _ _ | icmp4 _ _ | icmp6Echo _ _
  | icmp6 _ _ => exact ⟨⟨_, rfl⟩, rfl, by simp [Layer.plain]⟩
  | _ => cases hfinal

theorem Finds.count_pos (h : Finds bytes expected layer next) (hrooms : layer.Rooms next count) :
    0 < count := by
  have hadvance := chainStep_advances expected bytes
  rw [h.chainStep_eq] at hadvance
  exact Nat.lt_of_lt_of_le hadvance hrooms.span_le

theorem extensionTrailers_agree {code number : Nat} (hagree : Agree count bytes other)
    (hverdict : (extensionTrailers code (bytes.drop 40)).verdict = some number)
    (hcount : total Trailer.length (extensionTrailers code (bytes.drop 40)).items + 40 ≤ count) :
    (extensionTrailers code (other.drop 40)).items.map Trailer.hushed =
        (extensionTrailers code (bytes.drop 40)).items.map Trailer.hushed ∧
      (extensionTrailers code (other.drop 40)).verdict = some number :=
  (rooted_extensionStep number).scan_agree extensionStep_advances (by simp) (hagree.drop 40)
    hverdict (by unfold extensionTrailers at hcount; omega)

/-- A header found in the common front of two runs of bytes is found in both. -/
theorem Finds.agree (h : Finds bytes expected layer next) (hrooms : layer.Rooms next count)
    (hagree : Agree count bytes other) :
    ∃ same, Finds other expected same next ∧ same.hushed = layer.hushed := by
  induction h with
  | ethernetCut _ | vlanCut _ | snapCut _ | ipv6Cut _ _ _ _ | icmp6Report _ =>
      exact absurd rfl ((hrooms.more_of_not_final rfl).2 _)
  | icmp6Discovery _ hkind =>
      have hkinds : ∀ message ∈ icmp6Discoveries, message.2.1.isFinal = false := by decide
      exact absurd rfl ((hrooms.more_of_not_final (hkinds _ hkind)).2 _)
  | novellFrame => exact ⟨_, .novellFrame, rfl⟩
  | ethernet hfield =>
      have hcount : 16 ≤ count := (hrooms.more_of_not_final rfl).1
      rw [← hagree.u16?_eq (by omega)] at hfield
      refine ⟨_, .ethernet hfield, ?_⟩
      rw [framingMarks_agree _ hagree hcount]
  | vlan hfield =>
      have hcount : 6 ≤ count := (hrooms.more_of_not_final rfl).1
      rw [← hagree.u16?_eq (by omega)] at hfield
      refine ⟨_, .vlan hfield, ?_⟩
      rw [novellMarks_agree _ hagree hcount]
  | markedIpx hmarker =>
      have hcount : 30 ≤ count := hrooms.length_le
      rw [← hagree.u16?_eq (by omega)] at hmarker
      exact ⟨_, .markedIpx hmarker, rfl⟩
  | @llc word destination source control hword hother hdestination hsource hcontrol =>
      have hlength : (if control % 4 = 3 then 3 else 4) ≤ count := hrooms.length_le
      have hcount : 3 ≤ count := by
        split at hlength <;> omega
      rw [← hagree.u16?_eq (by omega)] at hword
      rw [← hagree.u8?_eq (by omega)] at hdestination hsource hcontrol
      exact ⟨_, .llc hword hother hdestination hsource hcontrol, rfl⟩
  | snap htype =>
      have hcount : 5 ≤ count := hrooms.length_le
      rw [← hagree.u16?_eq (by omega)] at htype
      exact ⟨_, .snap htype, rfl⟩
  | @arp hardware protocol hhardware hprotocol =>
      have hcount : 8 + 2 * (hardware + protocol) ≤ count := hrooms.length_le
      rw [← hagree.u8?_eq (by omega)] at hhardware hprotocol
      exact ⟨_, .arp hhardware hprotocol, rfl⟩
  | ipx => exact ⟨_, .ipx, rfl⟩
  | stp hkind hlength =>
      have hlengths : ∀ unit ∈ bridgeUnits, 4 ≤ unit.2 := by decide
      have hcount : 4 ≤ count := (hlengths _ hlength).trans hrooms.length_le
      rw [← hagree.u8?_eq (by omega)] at hkind
      exact ⟨_, .stp hkind hlength, rfl⟩
  | mpls hentry =>
      have hcount : 4 ≤ count := hrooms.length_le
      rw [← hagree.u32?_eq (by omega)] at hentry
      exact ⟨_, .mpls hentry, rfl⟩
  | @ipv4 depth byte word number hbyte hversion hlength hword hnumber =>
      have hcount : byte % 16 * 4 ≤ count := hrooms.length_le
      rw [← hagree.u8?_eq (by omega)] at hbyte hnumber
      rw [← hagree.u16?_eq (by omega)] at hword
      refine ⟨_, .ipv4 hbyte hversion hlength hword hnumber, ?_⟩
      rw [Layer.hushed, Layer.hushed, optionMembers_agree _ hagree hcount]
  | @ipv6 depth byte code number hbyte hversion hcode hverdict =>
      have hcount : 40 + total Trailer.length (extensionTrailers code (bytes.drop 40)).items ≤
          count := hrooms.span_le
      obtain ⟨htrailers, hends⟩ := extensionTrailers_agree hagree hverdict (by omega)
      rw [← hagree.u8?_eq (by omega)] at hbyte hcode
      refine ⟨_, .ipv6 hbyte hversion hcode hends, ?_⟩
      rw [Layer.hushed, Layer.hushed, Option.map_some, Option.map_some, htrailers]
  | labelledIpv4 hbyte hversion hfinds ih =>
      obtain ⟨same, hsame, hhushed⟩ := ih hrooms
      rw [← hagree.u8?_eq (hfinds.count_pos hrooms)] at hbyte
      exact ⟨same, .labelledIpv4 hbyte hversion hsame, hhushed⟩
  | labelledIpv6 hbyte hversion hfinds ih =>
      obtain ⟨same, hsame, hhushed⟩ := ih hrooms
      rw [← hagree.u8?_eq (hfinds.count_pos hrooms)] at hbyte
      exact ⟨same, .labelledIpv6 hbyte hversion hsame, hhushed⟩
  | quotedIpv4 hbyte hversion hfinds ih =>
      obtain ⟨same, hsame, hhushed⟩ := ih hrooms
      rw [← hagree.u8?_eq (hfinds.count_pos hrooms)] at hbyte
      exact ⟨same, .quotedIpv4 hbyte hversion hsame, hhushed⟩
  | quotedIpv6 hbyte hversion hfinds ih =>
      obtain ⟨same, hsame, hhushed⟩ := ih hrooms
      rw [← hagree.u8?_eq (hfinds.count_pos hrooms)] at hbyte
      exact ⟨same, .quotedIpv6 hbyte hversion hsame, hhushed⟩
  | @tcp depth byte hbyte hlength =>
      have hcount : byte / 16 * 4 ≤ count := hrooms.length_le
      rw [← hagree.u8?_eq (by omega)] at hbyte
      refine ⟨_, .tcp hbyte hlength, ?_⟩
      rw [Layer.hushed, Layer.hushed, optionMembers_agree _ hagree hcount]
  | udpCut hports =>
      have hcount : 8 ≤ count := hrooms.length_le
      rw [← hagree.u16?_eq (by omega), ← hagree.u16?_eq (by omega : 2 + 1 < count)] at hports
      exact ⟨_, .udpCut hports, rfl⟩
  | udp hsource hdestination =>
      have hcount : 8 ≤ count := hrooms.length_le
      rw [← hagree.u16?_eq (by omega)] at hsource hdestination
      exact ⟨_, .udp hsource hdestination, rfl⟩
  | sctp => exact ⟨_, .sctp, rfl⟩
  | gre hflags htype hlength =>
      have hcount := hrooms.length_le
      have hfour := (four_le_greLength? hlength).trans hcount
      rw [← hagree.u16?_eq (by omega)] at hflags htype
      exact ⟨_, .gre hflags htype (greLength?_agree hlength hcount hagree), rfl⟩
  | icmp4Echo htype hkind =>
      have hcount : 8 ≤ count := hrooms.length_le
      rw [← hagree.u8?_eq (by omega)] at htype
      exact ⟨_, .icmp4Echo htype hkind, rfl⟩
  | icmp4 htype hother =>
      have hcount : 4 ≤ count := hrooms.length_le
      rw [← hagree.u8?_eq (by omega)] at htype
      exact ⟨_, .icmp4 htype hother, rfl⟩
  | icmp6Error htype hkind =>
      have hcount : 8 ≤ count := hrooms.length_le
      rw [← hagree.u8?_eq (by omega)] at htype
      exact ⟨_, .icmp6Error htype hkind, rfl⟩
  | icmp6Echo htype hkind =>
      have hcount : 8 ≤ count := hrooms.length_le
      rw [← hagree.u8?_eq (by omega)] at htype
      exact ⟨_, .icmp6Echo htype hkind, rfl⟩
  | icmp6 htype hother =>
      have hcount : 4 ≤ count := hrooms.length_le
      rw [← hagree.u8?_eq (by omega)] at htype
      exact ⟨_, .icmp6 htype hother, rfl⟩

end Finds

end Dissection

import Dissection.Proofs.Arrangement
import Dissection.Proofs.CutBytes
import Dissection.Proofs.LayerShape

namespace Dissection

open Bytes

theorem confined_optionStep (recognize : Nat → Option ProtocolId) :
    Confined (optionStep recognize) := by
  refine ⟨?_, ?_⟩
  · intro region size next bytes entry hmove
    obtain ⟨_, _, _, hregion⟩ := optionStep_take hmove
    exact hregion
  · rw [optionStep_eq]
    refine kindStep_eq_or_stop ?_
    intro kind length hlong
    refine ⟨_, if_pos ?_⟩
    rw [decide_eq_false_iff_not] at hlong
    rw [Option.getD_some]
    omega

theorem confined_hopByHopStep : Confined hopByHopStep := by
  refine ⟨?_, ?_⟩
  · intro region size next bytes entry hmove
    obtain ⟨_, _, _, hregion⟩ := hopByHopStep_take hmove
    exact hregion
  · rw [hopByHopStep_eq]
    refine kindStep_eq_or_stop ?_
    intro kind length _
    refine ⟨_, if_pos ?_⟩
    rw [Option.map_some, Option.getD_some]
    omega

/-- Pieces that, up to the first beyond a limit, begin others. -/
def Extends (limit : Nat) (pieces others : List Piece) : Prop :=
  ∀ front, front <+: pieces → (∀ piece ∈ front, piece.place.stop ≤ limit) → front <+: others

section Extends

variable {limit : Nat} {pieces others behind more : List Piece}

theorem extends_of_front (h : pieces <+: others) : Extends limit pieces others :=
  fun _ hfront _ => hfront.trans h

theorem Extends.append_right (h : Extends limit pieces others) (more : List Piece) :
    Extends limit pieces (others ++ more) :=
  fun front hfront hlimit => (h front hfront hlimit).trans (List.prefix_append _ _)

theorem Extends.append_of_beyond (h : Extends limit pieces others) {piece : Piece}
    (hpiece : piece ∈ pieces) (hbeyond : limit < piece.place.stop)
    (behind more : List Piece) : Extends limit (pieces ++ behind) (others ++ more) := by
  intro front hfront hlimit
  obtain ⟨first, second, rfl, hfirst, _, hwhole⟩ := prefix_append_split hfront
  rw [List.forall_mem_append] at hlimit
  rcases hwhole with rfl | rfl
  · rw [List.append_nil]
    exact h.append_right more first hfirst hlimit.1
  · exact absurd (hlimit.1 piece hpiece) (Nat.not_le_of_lt hbeyond)

theorem Extends.append_left (pieces : List Piece) (h : Extends limit behind more) :
    Extends limit (pieces ++ behind) (pieces ++ more) := by
  intro front hfront hlimit
  obtain ⟨first, second, rfl, hfirst, hsecond, hwhole⟩ := prefix_append_split hfront
  rw [List.forall_mem_append] at hlimit
  rcases hwhole with rfl | rfl
  · rw [List.append_nil]
    exact hfirst.trans (List.prefix_append _ _)
  · exact (List.prefix_append_right_inj _).mpr (h second hsecond hlimit.2)

end Extends

theorem entryPieces_front (offset : Nat) {entries others : List Entry}
    (h : entries <+: others) : entryPieces offset entries <+: entryPieces offset others := by
  obtain ⟨behind, rfl⟩ := h
  rw [entryPieces_append]
  exact List.prefix_append _ _

theorem trailerPieces_front (offset : Nat) {trailers others : List Trailer}
    (h : trailers <+: others) :
    trailerPieces offset trailers <+: trailerPieces offset others := by
  obtain ⟨behind, rfl⟩ := h
  rw [trailerPieces_append]
  exact List.prefix_append _ _

/-- Members in a header of `length` bytes, found in the first `count` bytes, are the
first of those found in all of them, and all of them if the header ends before the
cut. -/
structure Members.Curtails (count length : Nat) (members whole : Members) : Prop where
  start_eq : members.start = whole.start
  front : members.run.items <+: whole.run.items
  items_eq : length ≤ count → members.run.items = whole.run.items

section Members

variable {count length : Nat} {members whole : Members}

theorem Members.Curtails.refl (count length : Nat) (members : Members) :
    members.Curtails count length members :=
  ⟨rfl, List.prefix_rfl, fun _ => rfl⟩

theorem Members.Curtails.pieces_front (h : members.Curtails count length whole)
    (offset : Nat) : members.pieces offset <+: whole.pieces offset := by
  rw [Members.pieces, Members.pieces, h.start_eq]
  exact entryPieces_front _ h.front

theorem Members.Curtails.pieces_eq (h : members.Curtails count length whole)
    (hlength : length ≤ count) (offset : Nat) :
    members.pieces offset = whole.pieces offset := by
  rw [Members.pieces, Members.pieces, h.start_eq, h.items_eq hlength]

theorem optionEntries_curtails (recognize : Nat → Option ProtocolId) (rest : Bytes)
    (count length start : Nat) (h : start ≤ length) :
    Members.Curtails count length
      ⟨start, optionEntries recognize (length - start) ((rest.take count).drop start)⟩
      ⟨start, optionEntries recognize (length - start) (rest.drop start)⟩ := by
  rw [List.drop_take]
  refine ⟨rfl, ?_, ?_⟩
  · exact (cautious_optionStep recognize).items_front none (optionStep_advances recognize) _ _ _
  · intro hlength
    exact (confined_optionStep recognize).items_eq (optionStep_advances recognize) _ (by omega)

theorem hopByHopEntries_curtails (rest : Bytes) (count length start : Nat)
    (h : start ≤ length) :
    Members.Curtails count length
      ⟨start, hopByHopEntries (length - start) ((rest.take count).drop start)⟩
      ⟨start, hopByHopEntries (length - start) (rest.drop start)⟩ := by
  rw [List.drop_take]
  refine ⟨rfl, ?_, ?_⟩
  · exact cautious_hopByHopStep.items_front none hopByHopStep_advances _ _ _
  · intro hlength
    exact confined_hopByHopStep.items_eq hopByHopStep_advances _ (by omega)

end Members

/-- An extension header found in the first `count` bytes, and the one found in all of
them. -/
structure Trailer.Curtails (count : Nat) (trailer whole : Trailer) : Prop where
  id_eq : trailer.id = whole.id
  length_eq : trailer.length = whole.length
  members : trailer.members.Curtails count trailer.length whole.members

theorem extensionTrailer_curtails {header : ExtensionHeader} {rest : Bytes} {count : Nat}
    {trailer : Trailer} {next : Option Nat}
    (h : extensionTrailer header (rest.take count) = some (trailer, next)) :
    ∃ whole, extensionTrailer header rest = some (whole, next) ∧
      trailer.Curtails count whole := by
  cases header with
  | encapsulatingSecurityPayload =>
      exact ⟨trailer, h, rfl, rfl, .refl _ _ _⟩
  | fragment =>
      simp only [extensionTrailer, Option.bind_eq_bind, Option.bind_eq_some_iff,
        Option.some.injEq, Prod.mk.injEq] at h ⊢
      obtain ⟨number, hnumber, word, hword, rfl, rfl⟩ := h
      exact ⟨_, ⟨number, u8?_of_take hnumber, word, u16?_of_take hword, rfl, rfl⟩,
        rfl, rfl, .refl _ _ _⟩
  | hopByHop =>
      simp only [extensionTrailer, Option.bind_eq_bind, Option.bind_eq_some_iff,
        Option.some.injEq, Prod.mk.injEq] at h ⊢
      obtain ⟨number, hnumber, units, hunits, rfl, rfl⟩ := h
      exact ⟨_, ⟨number, u8?_of_take hnumber, units, u8?_of_take hunits, rfl, rfl⟩,
        rfl, rfl, hopByHopEntries_curtails _ _ _ _ (by dsimp only; omega)⟩
  | _ =>
      simp only [extensionTrailer, Option.bind_eq_bind, Option.bind_eq_some_iff,
        Option.some.injEq, Prod.mk.injEq] at h ⊢
      obtain ⟨number, hnumber, units, hunits, rfl, rfl⟩ := h
      exact ⟨_, ⟨number, u8?_of_take hnumber, units, u8?_of_take hunits, rfl, rfl⟩,
        rfl, rfl, .refl _ _ _⟩

theorem conclusive_extensionStep (number : Nat) :
    Conclusive extensionStep (some number) := by
  intro state bytes count h
  cases state with
  | none => exact h
  | some code =>
      unfold extensionStep at h ⊢
      cases hheader : ExtensionHeader.ofCode? code with
      | none => simpa only [hheader] using h
      | some header =>
          simp only [hheader] at h
          split at h <;> cases h

theorem extensionStep_curtails {state next : Option Nat} {rest : Bytes} {count size : Nat}
    {trailer : Trailer} (h : extensionStep state (rest.take count) = .take trailer size next) :
    size = trailer.length ∧ ∃ whole, extensionStep state rest = .take whole size next ∧
      trailer.Curtails count whole := by
  obtain ⟨code, header, rfl, hheader, htrailer, rfl⟩ := extensionStep_take h
  obtain ⟨whole, hwhole, hcurtails⟩ := extensionTrailer_curtails htrailer
  refine ⟨rfl, whole, ?_, hcurtails⟩
  rw [extensionStep, hheader]
  dsimp only
  rw [hwhole, hcurtails.length_eq]

theorem Scans.curtails {state : Option Nat} {short : Bytes}
    {found : Scanned Trailer (Option Nat)} (h : Scans extensionStep none state short found)
    {rest : Bytes} {count : Nat} (hshort : rest.take count = short) (offset : Nat) :
    Extends (offset + count) (trailerPieces offset found.items)
        (trailerPieces offset (scan extensionStep none state rest).items) ∧
      ∀ number, found.verdict = some number →
        trailerPieces offset found.items =
            trailerPieces offset (scan extensionStep none state rest).items ∧
          (scan extensionStep none state rest).verdict = some number := by
  induction h generalizing rest count offset with
  | @stop state short verdict hmove =>
      refine ⟨extends_of_front List.nil_prefix, ?_⟩
      rintro number rfl
      subst hshort
      rw [scan_of_stop none extensionStep_advances (conclusive_extensionStep number _ _ _ hmove)]
      exact ⟨rfl, rfl⟩
  | last hmove _ =>
      subst hshort
      obtain ⟨_, whole, hwhole, hid, hlength, hmembers⟩ := extensionStep_curtails hmove
      obtain ⟨behind, hbehind⟩ :=
        scan_items_of_take none extensionStep_advances hwhole
      refine ⟨?_, fun number hnumber => by cases hnumber⟩
      rw [hbehind, trailerPieces, trailerPieces, trailerPieces, List.append_nil, hid, hlength]
      apply Extends.append_left [_]
      exact (extends_of_front (hmembers.pieces_front offset)).append_right _
  | @take state next short trailer size found hmove hsize _ ih =>
      subst hshort
      obtain ⟨rfl, whole, hwhole, hid, hlength, hmembers⟩ := extensionStep_curtails hmove
      rw [List.length_take] at hsize
      have hscan := scan_of_take none extensionStep_advances hwhole (by omega)
      obtain ⟨hextends, hcomplete⟩ := ih List.drop_take.symm (offset + trailer.length)
      have hpieces := hmembers.pieces_eq (by omega) offset
      rw [show offset + trailer.length + (count - trailer.length) = offset + count by omega]
        at hextends
      rw [hscan, Scanned.cons_items, Scanned.cons_items, Scanned.cons_verdict, trailerPieces,
        trailerPieces, hid, hpieces, ← hlength]
      refine ⟨?_, ?_⟩
      · apply Extends.append_left [_]
        exact hextends.append_left _
      · intro number hnumber
        obtain ⟨hrest, hverdict⟩ := hcomplete number hnumber
        exact ⟨by rw [hrest], hverdict⟩

/-- What a layer found in the first `count` bytes is to the one found in all of them. -/
structure Layer.Curtails (count : Nat) (layer whole : Layer) : Prop where
  kind_eq : layer.kind = whole.kind
  depth_eq : layer.depth = whole.depth
  pieces : ∀ offset, Extends (offset + count) (layer.pieces offset) (whole.pieces offset)

/-- What a header found in the first `count` bytes, with what is expected behind it, is
to the one found in all of them. Where the chain goes on behind it before the cut, it
goes on in the same way. -/
structure CutShort (count : Nat) (layer : Layer) (next : Expected) (whole : Layer)
    (after : Expected) : Prop where
  curtails : layer.Curtails count whole
  goes_on : (∃ ending, next = .nothing ending) ∨ count < layer.span ∨
    (∀ offset, layer.pieces offset = whole.pieces offset) ∧ next = after

section Headers

variable {count : Nat}

theorem CutShort.refl (count : Nat) (layer : Layer) (next : Expected) :
    CutShort count layer next layer next :=
  ⟨⟨rfl, rfl, fun _ => extends_of_front List.prefix_rfl⟩, .inr (.inr ⟨fun _ => rfl, rfl⟩)⟩

theorem cutShort_plain {kind : HeaderKind} {depth length : Nat} {marks others : List Mark}
    {next after : Expected} (h : (∃ ending, next = .nothing ending) ∨ next = after) :
    CutShort count (.plain kind depth length marks) next (.plain kind depth length others)
      after := by
  refine ⟨⟨rfl, rfl, fun _ => extends_of_front List.prefix_rfl⟩, ?_⟩
  rcases h with hnothing | hnext
  · exact .inl hnothing
  · exact .inr (.inr ⟨fun _ => rfl, hnext⟩)

theorem cutShort_options {kind : HeaderKind} {depth length : Nat} {marks : List Mark}
    (recognize : Nat → Option ProtocolId) (rest : Bytes) (hlength : 20 ≤ length)
    (next : Expected) :
    CutShort count
      ⟨kind, depth, length, marks,
        ⟨20, optionEntries recognize (length - 20) ((rest.take count).drop 20)⟩, none⟩ next
      ⟨kind, depth, length, marks,
        ⟨20, optionEntries recognize (length - 20) (rest.drop 20)⟩, none⟩ next := by
  have hmembers := optionEntries_curtails recognize rest count length 20 hlength
  refine ⟨⟨rfl, rfl, ?_⟩, .inr ?_⟩
  · intro offset
    apply extends_of_front
    rw [Layer.pieces, Layer.pieces, List.cons_prefix_cons, Layer.parts_eq_members rfl,
      Layer.parts_eq_members rfl]
    exact ⟨rfl, hmembers.pieces_front offset⟩
  · rcases Nat.lt_or_ge count length with hbeyond | hbefore
    · exact .inl (Nat.lt_of_lt_of_le hbeyond (Nat.le_add_right _ _))
    · refine .inr ⟨?_, rfl⟩
      intro offset
      rw [Layer.pieces, Layer.pieces, Layer.parts_eq_members rfl, Layer.parts_eq_members rfl]
      exact congrArg (_ :: ·) (hmembers.pieces_eq hbefore offset)

theorem curtails_discovery (kind : HeaderKind) (depth length : Nat) (marks : List Mark)
    (rest : Bytes) :
    Layer.Curtails count
      ⟨kind, depth, length, marks, ⟨length, ndEntries ((rest.take count).drop length)⟩, none⟩
      ⟨kind, depth, length, marks, ⟨length, ndEntries (rest.drop length)⟩, none⟩ := by
  refine ⟨rfl, rfl, ?_⟩
  intro offset
  apply extends_of_front
  have hfront := cautious_ndStep.items_front none ndStep_advances () (rest.drop length)
    (count - length)
  rw [← List.drop_take] at hfront
  have hpieces := entryPieces_front (offset + length) hfront
  rw [Layer.pieces, Layer.pieces, List.cons_prefix_cons, Layer.parts_eq_members rfl,
    Layer.parts_eq_members rfl]
  exact ⟨rfl, hpieces⟩

theorem curtails_trailed {kind : HeaderKind} {depth length : Nat} {marks : List Mark}
    {trailers others : List Trailer}
    (h : length ≤ count → ∀ offset, Extends (offset + count)
      (trailerPieces (offset + length) trailers) (trailerPieces (offset + length) others)) :
    Layer.Curtails count ⟨kind, depth, length, marks, .none, some trailers⟩
      ⟨kind, depth, length, marks, .none, some others⟩ := by
  refine ⟨rfl, rfl, ?_⟩
  intro offset
  show Extends (offset + count)
    ([⟨.header, kind.id, offset, length⟩] ++ trailerPieces (offset + length) trailers)
    ([⟨.header, kind.id, offset, length⟩] ++ trailerPieces (offset + length) others)
  rcases Nat.lt_or_ge count length with hbeyond | hbefore
  · refine Extends.append_of_beyond (extends_of_front List.prefix_rfl)
      (List.mem_singleton_self _) ?_ _ _
    exact Nat.add_lt_add_left hbeyond offset
  · exact (h hbefore offset).append_left _

theorem curtails_report (depth : Nat) (marks : List Mark) (rest : Bytes) :
    Layer.Curtails count
      ⟨.icmp6ListenerReport, depth, 8, marks, .none,
        some (addressRecords ((u16? (rest.take count) 6).getD 0) ((rest.take count).drop 8))⟩
      ⟨.icmp6ListenerReport, depth, 8, marks, .none,
        some (addressRecords ((u16? rest 6).getD 0) (rest.drop 8))⟩ := by
  apply curtails_trailed
  intro hbefore offset
  have hfront := cautious_addressRecordStep.items_front () addressRecordStep_advances
    ((u16? rest 6).getD 0) (rest.drop 8) (count - 8)
  rw [← List.drop_take] at hfront
  rw [u16?_take rest (by omega)]
  exact extends_of_front (trailerPieces_front _ hfront)

theorem extensionTrailers_curtails (code : Nat) (rest : Bytes) (offset : Nat) :
    Extends (offset + (count - 40))
        (trailerPieces offset (extensionTrailers code ((rest.take count).drop 40)).items)
        (trailerPieces offset (extensionTrailers code (rest.drop 40)).items) ∧
      ∀ number, (extensionTrailers code ((rest.take count).drop 40)).verdict = some number →
        trailerPieces offset (extensionTrailers code ((rest.take count).drop 40)).items =
            trailerPieces offset (extensionTrailers code (rest.drop 40)).items ∧
          (extensionTrailers code (rest.drop 40)).verdict = some number := by
  have hscans : Scans extensionStep none (some code) ((rest.take count).drop 40)
      (extensionTrailers code ((rest.take count).drop 40)) :=
    scans_scan extensionStep_advances _ _
  exact hscans.curtails List.drop_take.symm offset

theorem curtails_ipv6 (depth code : Nat) (marks : List Mark) (rest : Bytes) :
    Layer.Curtails count
      ⟨.ipv6, depth, 40, marks, .none,
        some (extensionTrailers code ((rest.take count).drop 40)).items⟩
      ⟨.ipv6, depth, 40, marks, .none, some (extensionTrailers code (rest.drop 40)).items⟩ := by
  apply curtails_trailed
  intro hbefore offset
  rw [show offset + count = offset + 40 + (count - 40) by omega]
  exact (extensionTrailers_curtails code rest (offset + 40)).1

/-- A header found in the first bytes is the front of one found in all of them. -/
theorem Finds.of_take {rest : Bytes} {expected next : Expected} {layer : Layer}
    (h : Finds (rest.take count) expected layer next) :
    ∃ whole after, Finds rest expected whole after ∧ CutShort count layer next whole after := by
  induction h with
  | novellFrame => exact ⟨_, _, .novellFrame, .refl _ _ _⟩
  | ethernetCut _ =>
      cases hfield : u16? rest 12 with
      | none => exact ⟨_, _, .ethernetCut hfield, .refl _ _ _⟩
      | some field => exact ⟨_, _, .ethernet hfield, cutShort_plain (.inl ⟨_, rfl⟩)⟩
  | ethernet hfield =>
      exact ⟨_, _, .ethernet (u16?_of_take hfield), cutShort_plain (.inr rfl)⟩
  | vlanCut _ =>
      cases hfield : u16? rest 2 with
      | none => exact ⟨_, _, .vlanCut hfield, .refl _ _ _⟩
      | some field => exact ⟨_, _, .vlan hfield, cutShort_plain (.inl ⟨_, rfl⟩)⟩
  | vlan hfield => exact ⟨_, _, .vlan (u16?_of_take hfield), cutShort_plain (.inr rfl)⟩
  | markedIpx hmarker => exact ⟨_, _, .markedIpx (u16?_of_take hmarker), .refl _ _ _⟩
  | llc hword hother hdestination hsource hcontrol =>
      exact ⟨_, _, .llc (u16?_of_take hword) hother (u8?_of_take hdestination)
        (u8?_of_take hsource) (u8?_of_take hcontrol), .refl _ _ _⟩
  | snapCut _ =>
      cases htype : u16? rest 3 with
      | none => exact ⟨_, _, .snapCut htype, .refl _ _ _⟩
      | some type => exact ⟨_, _, .snap htype, cutShort_plain (.inl ⟨_, rfl⟩)⟩
  | snap htype => exact ⟨_, _, .snap (u16?_of_take htype), .refl _ _ _⟩
  | arp hhardware hprotocol =>
      exact ⟨_, _, .arp (u8?_of_take hhardware) (u8?_of_take hprotocol), .refl _ _ _⟩
  | ipx => exact ⟨_, _, .ipx, .refl _ _ _⟩
  | stp hkind hlength => exact ⟨_, _, .stp (u8?_of_take hkind) hlength, .refl _ _ _⟩
  | mpls hentry => exact ⟨_, _, .mpls (u32?_of_take hentry), .refl _ _ _⟩
  | ipv4 hbyte hversion hlength hword hnumber =>
      exact ⟨_, _, .ipv4 (u8?_of_take hbyte) hversion hlength (u16?_of_take hword)
        (u8?_of_take hnumber), cutShort_options _ rest hlength _⟩
  | @ipv6Cut depth byte code hbyte hversion hcode _ =>
      cases hverdict : (extensionTrailers code (rest.drop 40)).verdict with
      | none =>
          exact ⟨_, _, .ipv6Cut (u8?_of_take hbyte) hversion (u8?_of_take hcode) hverdict,
            curtails_ipv6 depth code _ rest, .inl ⟨_, rfl⟩⟩
      | some number =>
          exact ⟨_, _, .ipv6 (u8?_of_take hbyte) hversion (u8?_of_take hcode) hverdict,
            curtails_ipv6 depth code _ rest, .inl ⟨_, rfl⟩⟩
  | @ipv6 depth byte code number hbyte hversion hcode hverdict =>
      have htrailers offset := (extensionTrailers_curtails code rest offset).2 number hverdict
      refine ⟨_, _, .ipv6 (u8?_of_take hbyte) hversion (u8?_of_take hcode) (htrailers 0).2,
        curtails_ipv6 depth code _ rest, .inr (.inr ⟨?_, rfl⟩)⟩
      intro offset
      rw [Layer.pieces, Layer.pieces, Layer.parts, Layer.parts]
      exact congrArg (_ :: _ ++ ·) (htrailers (offset + 40)).1
  | labelledIpv4 hbyte hversion _ ih =>
      obtain ⟨whole, after, hfinds, hcut⟩ := ih
      exact ⟨whole, after, .labelledIpv4 (u8?_of_take hbyte) hversion hfinds, hcut⟩
  | labelledIpv6 hbyte hversion _ ih =>
      obtain ⟨whole, after, hfinds, hcut⟩ := ih
      exact ⟨whole, after, .labelledIpv6 (u8?_of_take hbyte) hversion hfinds, hcut⟩
  | quotedIpv4 hbyte hversion _ ih =>
      obtain ⟨whole, after, hfinds, hcut⟩ := ih
      exact ⟨whole, after, .quotedIpv4 (u8?_of_take hbyte) hversion hfinds, hcut⟩
  | quotedIpv6 hbyte hversion _ ih =>
      obtain ⟨whole, after, hfinds, hcut⟩ := ih
      exact ⟨whole, after, .quotedIpv6 (u8?_of_take hbyte) hversion hfinds, hcut⟩
  | tcp hbyte hlength =>
      exact ⟨_, _, .tcp (u8?_of_take hbyte) hlength, cutShort_options _ rest hlength _⟩
  | udpCut _ =>
      cases hsource : u16? rest 0 with
      | none => exact ⟨_, _, .udpCut (.inl hsource), .refl _ _ _⟩
      | some source =>
          cases hdestination : u16? rest 2 with
          | none => exact ⟨_, _, .udpCut (.inr hdestination), .refl _ _ _⟩
          | some destination =>
              exact ⟨_, _, .udp hsource hdestination, cutShort_plain (.inl ⟨_, rfl⟩)⟩
  | udp hsource hdestination =>
      exact ⟨_, _, .udp (u16?_of_take hsource) (u16?_of_take hdestination), .refl _ _ _⟩
  | sctp => exact ⟨_, _, .sctp, .refl _ _ _⟩
  | gre hflags htype hlength =>
      exact ⟨_, _, .gre (u16?_of_take hflags) (u16?_of_take htype) (greLength?_of_take hlength),
        .refl _ _ _⟩
  | icmp4Echo htype hkind => exact ⟨_, _, .icmp4Echo (u8?_of_take htype) hkind, .refl _ _ _⟩
  | icmp4 htype hother => exact ⟨_, _, .icmp4 (u8?_of_take htype) hother, .refl _ _ _⟩
  | icmp6Error htype hkind => exact ⟨_, _, .icmp6Error (u8?_of_take htype) hkind, .refl _ _ _⟩
  | icmp6Echo htype hkind => exact ⟨_, _, .icmp6Echo (u8?_of_take htype) hkind, .refl _ _ _⟩
  | icmp6Discovery htype hkind =>
      exact ⟨_, _, .icmp6Discovery (u8?_of_take htype) hkind,
        curtails_discovery _ _ _ _ rest, .inl ⟨_, rfl⟩⟩
  | icmp6Report htype =>
      exact ⟨_, _, .icmp6Report (u8?_of_take htype), curtails_report _ _ rest, .inl ⟨_, rfl⟩⟩
  | icmp6 htype hother => exact ⟨_, _, .icmp6 (u8?_of_take htype) hother, .refl _ _ _⟩

end Headers

end Dissection

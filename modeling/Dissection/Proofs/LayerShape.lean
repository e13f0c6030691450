import Dissection.Proofs.FillingRecords
import Dissection.Proofs.Headers

namespace Dissection

/-- Entries from `start` bytes into a header on, none of them empty, all that are
recognized of one family. -/
structure Members.Carries (members : Members) (start : Nat) (family : ProtocolId → Prop) :
    Prop where
  start_eq : members.start = start
  length_pos : ∀ entry ∈ members.run.items, 0 < entry.length
  known : ∀ entry ∈ members.run.items, ∀ id, entry.finding = .known id → family id

namespace ProtocolId

/-- The identifier of an IPv4 option. -/
def IsIpv4Option (id : ProtocolId) : Prop :=
  ∃ option : Ipv4Option, id = option.id

/-- The identifier of a TCP option. -/
def IsTcpOption (id : ProtocolId) : Prop :=
  ∃ option : TcpOption, id = option.id

/-- The identifier of a Neighbor-Discovery option. -/
def IsNdOption (id : ProtocolId) : Prop :=
  ∃ option : NdOption, id = option.id

/-- The identifier of an option of a Hop-by-Hop header. -/
def IsHopByHopOption (id : ProtocolId) : Prop :=
  ∃ option : HopByHopOption, id = option.id

/-- The identifier of a multicast address record. -/
def IsAddressRecord (id : ProtocolId) : Prop :=
  ∃ record : AddressRecord, id = record.id

end ProtocolId

/-- An extension header, with options if it is a Hop-by-Hop header and nothing else. -/
structure Trailer.IsExtension (trailer : Trailer) : Prop where
  length_pos : 0 < trailer.length
  header : ∃ header : ExtensionHeader, trailer.id = header.id ∧
    (if header = .hopByHop then
      trailer.members.Carries 2 ProtocolId.IsHopByHopOption ∧ trailer.members.Within trailer.length
    else trailer.members = .none)

/-- An address record, which carries nothing. -/
structure Trailer.IsAddressRecord (trailer : Trailer) : Prop where
  length_pos : 0 < trailer.length
  id : trailer.id.IsAddressRecord
  members : trailer.members = .none

/-- What a header of a kind carries and is trailed by. -/
def Layer.Form (layer : Layer) : Prop :=
  match layer.kind with
  | .ipv4 => layer.trailers = none ∧ layer.members.Carries 20 ProtocolId.IsIpv4Option ∧
      layer.members.Within layer.length
  | .tcp => layer.trailers = none ∧ layer.members.Carries 20 ProtocolId.IsTcpOption ∧
      layer.members.Within layer.length
  | .ipv6 => layer.length = 40 ∧ layer.members = .none ∧
      ∃ trailers, layer.trailers = some trailers ∧
        ∀ trailer ∈ trailers, trailer.IsExtension
  | .icmp6ListenerReport => layer.length = 8 ∧ layer.members = .none ∧
      ∃ trailers, layer.trailers = some trailers ∧
        ∀ trailer ∈ trailers, trailer.IsAddressRecord
  | .icmp6RouterSolicitation | .icmp6RouterAdvertisement | .icmp6NeighborSolicitation
  | .icmp6NeighborAdvertisement =>
      layer.trailers = none ∧ layer.members.Carries layer.length ProtocolId.IsNdOption
  | _ => layer.trailers = none ∧ layer.members = .none

/-- A layer with the shape of its kind. -/
structure Layer.Shaped (layer : Layer) : Prop where
  length_pos : 0 < layer.length
  form : layer.Form

/-- The identifier of an option that a header carries itself. -/
def ProtocolId.IsHeaderOption (id : ProtocolId) : Prop :=
  id.IsIpv4Option ∨ id.IsTcpOption ∨ id.IsNdOption

theorem Members.Carries.mono {members : Members} {start : Nat}
    {family other : ProtocolId → Prop} (h : members.Carries start family)
    (hfamily : ∀ id, family id → other id) : members.Carries start other :=
  ⟨h.start_eq, h.length_pos, fun entry hentry id hid => hfamily id (h.known entry hentry id hid)⟩

theorem Layer.Shaped.cases {layer : Layer} (h : layer.Shaped) :
    (layer.trailers = none ∧ layer.members = .none) ∨
    (layer.trailers = none ∧ ∃ start, 0 < start ∧
      layer.members.Carries start ProtocolId.IsHeaderOption) ∨
    (layer.members = .none ∧ ∃ trailers, layer.trailers = some trailers ∧
      ∀ trailer ∈ trailers, trailer.IsExtension ∨ trailer.IsAddressRecord) := by
  have hform := h.form
  unfold Layer.Form at hform
  split at hform
  case h_1 =>
    exact .inr (.inl ⟨hform.1, 20, Nat.succ_pos 19, hform.2.1.mono fun _ => .inl⟩)
  case h_2 =>
    exact .inr (.inl ⟨hform.1, 20, Nat.succ_pos 19, hform.2.1.mono fun _ => .inr ∘ .inl⟩)
  case h_3 =>
    obtain ⟨_, hmembers, trailers, htrailers, hextension⟩ := hform
    exact .inr (.inr ⟨hmembers, trailers, htrailers,
      fun trailer htrailer => .inl (hextension trailer htrailer)⟩)
  case h_4 =>
    obtain ⟨_, hmembers, trailers, htrailers, hrecord⟩ := hform
    exact .inr (.inr ⟨hmembers, trailers, htrailers,
      fun trailer htrailer => .inr (hrecord trailer htrailer)⟩)
  case h_9 => exact .inl hform
  all_goals
    exact .inr (.inl ⟨hform.1, layer.length, h.length_pos,
      hform.2.mono fun _ => .inr ∘ .inr⟩)

theorem Members.within_none (length : Nat) : Members.none.Within length :=
  Nat.zero_le length

/-- The kinds of headers that neither carry nor are trailed by anything. -/
def HeaderKind.isPlain : HeaderKind → Bool
  | .ipv4 | .tcp | .ipv6 | .icmp6ListenerReport | .icmp6RouterSolicitation
  | .icmp6RouterAdvertisement | .icmp6NeighborSolicitation
  | .icmp6NeighborAdvertisement => false
  | _ => true

theorem Layer.shaped_plain {kind : HeaderKind} {length : Nat} (depth : Nat)
    (marks : List Mark) (hkind : kind.isPlain = true) (hlength : 0 < length) :
    (Layer.plain kind depth length marks).Shaped := by
  refine ⟨hlength, ?_⟩
  cases kind <;> first | exact ⟨rfl, rfl⟩ | cases hkind

section Entries

variable {recognize : Nat → Option ProtocolId} {family : ProtocolId → Prop}

theorem known_ofId? {length : Nat} {id? : Option ProtocolId} {note : Note}
    (hfamily : ∀ id, id? = some id → family id) {id : ProtocolId}
    (h : (Entry.ofId? length id? note).finding = .known id) : family id := by
  cases hid : id? with
  | none => simp [Entry.ofId?, hid] at h
  | some found =>
      simp only [Entry.ofId?, hid, Finding.known.injEq] at h
      exact h ▸ hfamily found hid

theorem optionStep_take {region size next : Nat} {rest : Bytes} {entry : Entry}
    (h : optionStep recognize region rest = .take entry size next) :
    ∃ kind, entry = .ofId? size (recognize kind) (.skippedOption kind) ∧
      0 < size ∧ size + next ≤ region := by
  unfold optionStep at h
  split at h
  · cases h
  · split at h
    · cases h
    · rename_i kind _
      split at h
      · cases h
      · rename_i length hlength
        split at h
        · cases h
        · rename_i hregion
          injection h with hentry hsize hnext
          subst hsize
          refine ⟨kind, hentry.symm, ?_, ?_⟩
          · split at hlength
            · injection hlength with hlength
              omega
            · omega
          · split at hnext <;> omega

theorem hopByHopStep_take {region size next : Nat} {rest : Bytes} {entry : Entry}
    (h : hopByHopStep region rest = .take entry size next) :
    ∃ kind, entry = .ofId? size ((HopByHopOption.ofCode? kind).map HopByHopOption.id)
      (.skippedHopByHop kind) ∧ 0 < size ∧ size + next ≤ region := by
  unfold hopByHopStep at h
  split at h
  · cases h
  · split at h
    · cases h
    · rename_i kind _
      split at h
      · cases h
      · rename_i length hlength
        split at h
        · cases h
        · rename_i hregion
          injection h with hentry hsize hnext
          subst hsize
          refine ⟨kind, hentry.symm, ?_, by omega⟩
          split at hlength
          · injection hlength with hlength
            omega
          · obtain ⟨count, _, rfl⟩ := Option.map_eq_some_iff.mp hlength
            omega

theorem ndStep_take {size : Nat} {rest : Bytes} {entry : Entry} {state next : Unit}
    (h : ndStep state rest = .take entry size next) :
    entry.length = size ∧ 0 < size ∧
      ∀ id, entry.finding = .known id → id.IsNdOption := by
  unfold ndStep at h
  split at h
  · rename_i kind units _ _
    split at h
    · cases h
    · split at h
      · rename_i option _
        injection h with hentry hsize _
        subst hentry hsize
        refine ⟨rfl, by omega, ?_⟩
        intro id hid
        injection hid with hid
        exact ⟨option, hid.symm⟩
      · split at h
        · injection h with hentry hsize _
          subst hentry hsize
          refine ⟨rfl, by omega, ?_⟩
          intro id hid
          cases hid
        · cases h
  · cases h

theorem sum_length_le_region (step : Nat → Bytes → Move Nat Entry (Option Note))
    (hstep : ∀ {region size next : Nat} {rest : Bytes} {entry : Entry},
      step region rest = .take entry size next →
        entry.length = size ∧ size + next ≤ region)
    {region : Nat} {rest : Bytes} {found : Scanned Entry (Option Note)}
    (h : Scans step none region rest found) :
    total Entry.length found.items ≤ region := by
  induction h with
  | stop _ => exact Nat.zero_le _
  | last hmove _ =>
      obtain ⟨hlength, hregion⟩ := hstep hmove
      simp only [total_cons, total_nil]
      omega
  | take hmove _ _ ih =>
      obtain ⟨hlength, hregion⟩ := hstep hmove
      rw [Scanned.cons_items, total_cons]
      omega

theorem optionEntries_carries (hfamily : ∀ kind id, recognize kind = some id → family id)
    (start region : Nat) (rest : Bytes) :
    Members.Carries ⟨start, optionEntries recognize region rest⟩ start family := by
  have hentries : ∀ entry ∈ (optionEntries recognize region rest).items,
      0 < entry.length ∧ ∀ id, entry.finding = .known id → family id := by
    refine (scans_scan (optionStep_advances recognize) region rest).forall_items ?_
    intro region rest entry size next hmove
    obtain ⟨kind, rfl, hpos, _⟩ := optionStep_take hmove
    exact ⟨hpos, fun id hid => known_ofId? (hfamily kind) hid⟩
  exact ⟨rfl, fun entry h => (hentries entry h).1, fun entry h => (hentries entry h).2⟩

theorem optionEntries_within (recognize : Nat → Option ProtocolId) (start region : Nat)
    (rest : Bytes) :
    Members.Within ⟨start, optionEntries recognize region rest⟩ (start + region) := by
  have hsum := sum_length_le_region (optionStep recognize) (by
    intro region size next rest entry hmove
    obtain ⟨kind, rfl, _, hregion⟩ := optionStep_take hmove
    exact ⟨rfl, hregion⟩) (scans_scan (optionStep_advances recognize) region rest)
  exact Nat.add_le_add_left hsum start

theorem hopByHopEntries_carries (start region : Nat) (rest : Bytes) :
    Members.Carries ⟨start, hopByHopEntries region rest⟩ start
      ProtocolId.IsHopByHopOption := by
  have hentries : ∀ entry ∈ (hopByHopEntries region rest).items,
      0 < entry.length ∧ ∀ id, entry.finding = .known id → id.IsHopByHopOption := by
    refine (scans_scan hopByHopStep_advances region rest).forall_items ?_
    intro region rest entry size next hmove
    obtain ⟨kind, rfl, hpos, _⟩ := hopByHopStep_take hmove
    refine ⟨hpos, fun id hid => known_ofId? ?_ hid⟩
    intro id hid
    obtain ⟨option, _, rfl⟩ := Option.map_eq_some_iff.mp hid
    exact ⟨option, rfl⟩
  exact ⟨rfl, fun entry h => (hentries entry h).1, fun entry h => (hentries entry h).2⟩

theorem hopByHopEntries_within (start region : Nat) (rest : Bytes) :
    Members.Within ⟨start, hopByHopEntries region rest⟩ (start + region) := by
  have hsum := sum_length_le_region hopByHopStep (by
    intro region size next rest entry hmove
    obtain ⟨kind, rfl, _, hregion⟩ := hopByHopStep_take hmove
    exact ⟨rfl, hregion⟩) (scans_scan hopByHopStep_advances region rest)
  exact Nat.add_le_add_left hsum start

theorem ndEntries_carries (start : Nat) (rest : Bytes) :
    Members.Carries ⟨start, ndEntries rest⟩ start ProtocolId.IsNdOption := by
  have hentries : ∀ entry ∈ (ndEntries rest).items,
      0 < entry.length ∧ ∀ id, entry.finding = .known id → id.IsNdOption := by
    refine (scans_scan ndStep_advances () rest).forall_items ?_
    intro state rest entry size next hmove
    obtain ⟨rfl, hpos, hfamily⟩ := ndStep_take hmove
    exact ⟨hpos, hfamily⟩
  exact ⟨rfl, fun entry h => (hentries entry h).1, fun entry h => (hentries entry h).2⟩

end Entries

theorem extensionTrailer_isExtension {header : ExtensionHeader} {rest : Bytes}
    {trailer : Trailer} {next : Option Nat}
    (h : extensionTrailer header rest = some (trailer, next)) :
    trailer.IsExtension := by
  have hpos := extensionTrailer_length_pos h
  refine ⟨hpos, header, ?_⟩
  cases header with
  | hopByHop =>
      simp only [extensionTrailer, Option.bind_eq_bind, Option.bind_eq_some_iff,
        Option.some.injEq, Prod.mk.injEq] at h
      obtain ⟨_, _, count, _, rfl, _⟩ := h
      refine ⟨rfl, ?_⟩
      rw [if_pos rfl]
      refine ⟨hopByHopEntries_carries _ _ _, ?_⟩
      have hwithin := hopByHopEntries_within 2 ((count + 1) * 8 - 2) (rest.drop 2)
      rwa [Nat.add_sub_cancel' (by omega)] at hwithin
  | encapsulatingSecurityPayload =>
      simp only [extensionTrailer, Option.some.injEq, Prod.mk.injEq] at h
      obtain ⟨rfl, _⟩ := h
      exact ⟨rfl, rfl⟩
  | _ =>
      simp only [extensionTrailer, Option.bind_eq_bind, Option.bind_eq_some_iff,
        Option.some.injEq, Prod.mk.injEq] at h
      obtain ⟨_, _, _, _, rfl, _⟩ := h
      exact ⟨rfl, rfl⟩

theorem extensionStep_take {state next : Option Nat} {rest : Bytes} {trailer : Trailer}
    {size : Nat} (h : extensionStep state rest = .take trailer size next) :
    ∃ code header, state = some code ∧ ExtensionHeader.ofCode? code = some header ∧
      extensionTrailer header rest = some (trailer, next) ∧ size = trailer.length := by
  unfold extensionStep at h
  split at h
  · cases h
  · rename_i code
    split at h
    · cases h
    · rename_i header hheader
      split at h
      · cases h
      · rename_i htrailer
        injection h with hitem hsize hnext
        subst hitem hsize hnext
        exact ⟨code, header, rfl, hheader, htrailer, rfl⟩

theorem extensionTrailers_isExtension (next : Nat) (rest : Bytes) :
    ∀ trailer ∈ (extensionTrailers next rest).items, trailer.IsExtension := by
  refine (scans_scan extensionStep_advances (some next) rest).forall_items ?_
  intro state rest trailer size next hmove
  obtain ⟨_, _, _, _, htrailer, _⟩ := extensionStep_take hmove
  exact extensionTrailer_isExtension htrailer

theorem addressRecordStep_take {count next : Nat} {rest : Bytes} {trailer : Trailer}
    {size : Nat} (h : addressRecordStep count rest = .take trailer size next) :
    trailer.IsAddressRecord ∧ size = trailer.length := by
  unfold addressRecordStep at h
  split at h
  · cases h
  · split at h
    · rename_i kind words sources _ _ _
      injection h with hitem hsize _
      subst hitem hsize
      exact ⟨⟨by dsimp only; omega, ⟨_, rfl⟩, rfl⟩, rfl⟩
    · cases h

theorem addressRecords_isAddressRecord (count : Nat) (rest : Bytes) :
    ∀ trailer ∈ addressRecords count rest, trailer.IsAddressRecord := by
  refine (scans_scan addressRecordStep_advances count rest).forall_items ?_
  intro state rest trailer size next hmove
  exact (addressRecordStep_take hmove).1

theorem optionEntries_within_header (recognize : Nat → Option ProtocolId) {length : Nat}
    (hlength : 20 ≤ length) (rest : Bytes) :
    Members.Within ⟨20, optionEntries recognize (length - 20) rest⟩ length := by
  have hwithin := optionEntries_within recognize 20 (length - 20) rest
  rwa [Nat.add_sub_cancel' hlength] at hwithin

section Headers

variable {expected next : Expected} {rest : Bytes} {layer : Layer}

/-- Every header that is found has the shape of its kind. -/
theorem Finds.shaped (h : Finds rest expected layer next) : layer.Shaped := by
  induction h with
  | novellFrame | ethernetCut _ | ethernet _ | vlanCut _ | vlan _ | markedIpx _ | snapCut _
  | snap _ | ipx | mpls _ | udpCut _ | udp _ _ | sctp | icmp4 _ _ | icmp6 _ _ =>
      exact Layer.shaped_plain _ _ rfl (by decide)
  | llc _ _ _ _ _ =>
      refine Layer.shaped_plain _ _ rfl ?_
      split <;> decide
  | arp _ _ => exact Layer.shaped_plain _ _ rfl (by omega)
  | stp _ hlength =>
      have hpos : ∀ unit ∈ bridgeUnits, 0 < unit.2 := by decide
      exact Layer.shaped_plain _ _ rfl (hpos _ hlength)
  | gre _ _ hlength => exact Layer.shaped_plain _ _ rfl (greLength?_pos hlength)
  | icmp4Echo _ hkind =>
      have hplain : ∀ message ∈ icmp4Echoes, message.2.isPlain = true := by decide
      exact Layer.shaped_plain _ _ (hplain _ hkind) (by decide)
  | icmp6Error _ hkind =>
      have hplain : ∀ message ∈ icmp6Errors, message.2.isPlain = true := by decide
      exact Layer.shaped_plain _ _ (hplain _ hkind) (by decide)
  | icmp6Echo _ hkind =>
      have hplain : ∀ message ∈ icmp6Echoes, message.2.isPlain = true := by decide
      exact Layer.shaped_plain _ _ (hplain _ hkind) (by decide)
  | ipv4 _ _ hlength _ _ =>
      refine ⟨Nat.lt_of_lt_of_le (by decide) hlength, rfl, ?_, ?_⟩
      · refine optionEntries_carries ?_ _ _ _
        intro kind id hid
        obtain ⟨option, _, rfl⟩ := Option.map_eq_some_iff.mp hid
        exact ⟨option, rfl⟩
      · exact optionEntries_within_header _ hlength _
  | tcp _ hlength =>
      refine ⟨Nat.lt_of_lt_of_le (by decide) hlength, rfl, ?_, ?_⟩
      · refine optionEntries_carries ?_ _ _ _
        intro kind id hid
        obtain ⟨option, _, rfl⟩ := Option.map_eq_some_iff.mp hid
        exact ⟨option, rfl⟩
      · exact optionEntries_within_header _ hlength _
  | ipv6Cut _ _ _ _ | ipv6 _ _ _ _ =>
      exact ⟨Nat.succ_pos 39, rfl, rfl, _, rfl, extensionTrailers_isExtension _ _⟩
  | labelledIpv4 _ _ _ ih | labelledIpv6 _ _ _ ih | quotedIpv4 _ _ _ ih
  | quotedIpv6 _ _ _ ih => exact ih
  | icmp6Discovery _ hkind =>
      simp only [icmp6Discoveries, List.mem_cons, Prod.mk.injEq, List.not_mem_nil,
        or_false] at hkind
      rcases hkind with ⟨_, rfl, rfl⟩ | ⟨_, rfl, rfl⟩ | ⟨_, rfl, rfl⟩ | ⟨_, rfl, rfl⟩ <;>
        exact ⟨Nat.succ_pos _, rfl, ndEntries_carries _ _⟩
  | icmp6Report _ =>
      exact ⟨Nat.succ_pos 7, rfl, rfl, _, rfl, addressRecords_isAddressRecord _ _⟩

theorem Finds.within (h : Finds rest expected layer next) :
    layer.members.Within layer.length ∨ ∃ ending, next = .nothing ending := by
  induction h with
  | ipv4 _ _ hlength _ _ => exact .inl (optionEntries_within_header _ hlength _)
  | tcp _ hlength => exact .inl (optionEntries_within_header _ hlength _)
  | labelledIpv4 _ _ _ ih | labelledIpv6 _ _ _ ih | quotedIpv4 _ _ _ ih
  | quotedIpv6 _ _ _ ih => exact ih
  | icmp6Discovery _ _ => exact .inr ⟨_, rfl⟩
  | _ => exact .inl (Members.within_none _)

end Headers

theorem Scans.shaped {expected : Expected} {rest : Bytes} {found : Scanned Layer Ending}
    (h : Scans chainStep .silent expected rest found) : ∀ layer ∈ found.items, layer.Shaped := by
  refine h.forall_items ?_
  intro expected rest layer span next hmove
  exact (chainStep_eq_take_iff.mp hmove).2.shaped

theorem chain_shaped (expected : Expected) (rest : Bytes) :
    ∀ layer ∈ (chain expected rest).items, layer.Shaped :=
  (scans_scan chainStep_advances expected rest).shaped

end Dissection

import Dissection.Proofs.Announcement
import Dissection.Proofs.CutBytes
import Dissection.Proofs.Geometry

namespace Dissection

open Bytes

/-- The number that an IPv6 header gives of what follows it, in the last extension
header recorded if there is one and else in its own next-header field. Nothing is
known to follow an Encapsulating Security Payload or a fragment other than the
first. -/
def GivesNumber (frame : Bytes) (header : Placement) (number : Nat) : Option Placement → Prop
  | none => u8? frame (header.offset + 6) = some number
  | some last =>
      u8? frame last.offset = some number ∧
        last.id ≠ ExtensionHeader.encapsulatingSecurityPayload.id ∧
          (last.id = ExtensionHeader.fragment.id →
            ∃ word, u16? frame (last.offset + 2) = some word ∧ word / 8 = 0)

/-- What the bytes of a frame have to say for a header of kind `next` to be recorded
as `second` behind a header `first` of kind `kind`, which owns `owned`. -/
def HeaderKind.Names (frame : Bytes) (first : Placement) (owned : List Placement)
    (second : Placement) (kind next : HeaderKind) : Prop :=
  match kind with
  | .ethernet | .vlan =>
      ∃ field, u16? frame (first.stop - 2) = some field ∧
        (next.HasEtherType field ∨
          next = .vlan ∧ (field = 0x8100 ∨ field = 0x88A8 ∨ field = 0x9100) ∨
            field < 0x0600 ∧
              (next = .ipx ∧ u16? frame second.offset = some 0xFFFF ∨
                next = .llc ∧ ∃ word, u16? frame second.offset = some word ∧ word ≠ 0xFFFF))
  | .snap => ∃ type, u16? frame (first.stop - 2) = some type ∧ next.HasEtherType type
  | .llc =>
      ∃ destination source control, u8? frame first.offset = some destination ∧
        u8? frame (first.offset + 1) = some source ∧
          u8? frame (first.offset + 2) = some control ∧
            (next = .snap ∧ destination = 0xAA ∧ source = 0xAA ∧ control = 0x03 ∨
              next = .ipx ∧ destination = 0xE0 ∧ source = 0xE0 ∨
                next = .stp ∧ destination = 0x42 ∧ source = 0x42)
  | .mpls =>
      ∃ entry, u32? frame first.offset = some entry ∧
        (next = .mpls ↔ entry.testBit 8 = false) ∧
          (next = .mpls ∨ next.HasVersion (frame.drop second.offset))
  | .ipv4 =>
      ∃ word number, u16? frame (first.offset + 6) = some word ∧ word % 8192 = 0 ∧
        u8? frame (first.offset + 9) = some number ∧ next.ipNumber? = some number
  | .ipv6 =>
      ∃ number, next.ipNumber? = some number ∧
        GivesNumber frame first number (owned.filter Placement.isExtension).getLast?
  | .gre =>
      ∃ type, u16? frame (first.offset + 2) = some type ∧
        (next = .ipv4 ∧ type = 0x0800 ∨ next = .ipv6 ∧ type = 0x86DD)
  | .icmp6DestinationUnreachable | .icmp6TimeExceeded | .icmp6ParameterProblem =>
      next.HasVersion (frame.drop second.offset)
  | _ => False

section Records

variable {front : List Piece} {layers : List Layer} {offset : Nat}

theorem split_at_core {places parts behind after : List Placement} {place : Placement}
    (hparts : ∀ part ∈ parts, part.isCore = false) (hplace : place.isCore = true)
    (h : places ++ place :: after = parts ++ behind) :
    ∃ between, places = parts ++ between ∧ behind = between ++ place :: after := by
  rcases List.append_eq_append_iff.mp h with ⟨missing, hmissing, hbehind⟩ | h
  · cases missing with
    | nil => exact ⟨[], by simpa using hmissing.symm, hbehind.symm⟩
    | cons other missing =>
        obtain ⟨rfl, _⟩ := List.cons.inj hbehind
        have hcore := hparts place (by simp [hmissing])
        simp [hcore] at hplace
  · exact h

theorem head_widened {place : Placement} {rest : List Placement}
    (hfront : front <+: layerPieces offset layers) (h : widened front = place :: rest) :
    ∃ layer behind, layers = layer :: behind ∧ place.id = layer.kind.id ∧
      place.offset = offset := by
  cases front with
  | nil => cases h
  | cons piece front =>
      cases layers with
      | nil => exact absurd (List.prefix_nil.mp hfront) (List.cons_ne_nil _ _)
      | cons layer behind =>
          obtain ⟨rfl, _⟩ := List.cons_prefix_cons.mp hfront
          obtain ⟨rfl, _⟩ := List.cons.inj h
          exact ⟨layer, behind, rfl, rfl, rfl⟩

theorem consecutive_of_front {before owned after : List Placement}
    {first second : Placement} (hshaped : ∀ layer ∈ layers, layer.Shaped)
    (hfront : front <+: layerPieces offset layers)
    (hplaces : widened front = before ++ first :: (owned ++ second :: after))
    (hfirst : first.isCore = true) (hsecond : second.isCore = true)
    (howned : ∀ place ∈ owned, place.isCore = false) :
    ∃ init layer next behind, layers = init ++ layer :: next :: behind ∧
      first = ⟨layer.kind.id, offset + total Layer.span init, layer.span⟩ ∧
        owned = (layer.parts (offset + total Layer.span init)).map Piece.place ∧
          second.id = next.kind.id ∧ second.offset = first.stop := by
  induction layers generalizing offset front before with
  | nil =>
      rw [List.prefix_nil.mp hfront] at hplaces
      cases before <;> cases hplaces
  | cons layer rest ih =>
      rw [List.forall_mem_cons] at hshaped
      rcases front_layerPieces_cases hfront with rfl | ⟨parts, behind, rfl, hparts, hbehind, hwhole⟩
      · cases before <;> cases hplaces
      · have hplain := hshaped.1.isCore_parts hparts
        rw [widened_front _ hparts hbehind] at hplaces
        cases before with
        | nil =>
            obtain ⟨rfl, htail⟩ := List.cons.inj hplaces
            obtain ⟨between, rfl, hsplit⟩ := split_at_core hplain hsecond htail.symm
            cases between with
            | nil =>
                obtain ⟨next, others, rfl, hid, hoffset⟩ := head_widened hbehind hsplit
                rcases hwhole with rfl | rfl
                · cases hsplit
                · rw [List.append_nil, Layer.length_add_trailed]
                  exact ⟨[], layer, next, others, rfl, rfl, rfl, hid, hoffset⟩
            | cons place between =>
                obtain ⟨next, _, _, hid, _⟩ := head_widened hbehind hsplit
                have hcore : place.isCore = true := by
                  rw [Placement.isCore, hid, HeaderKind.isCore_id]
                have hplace := howned place (by simp)
                simp [hcore] at hplace
        | cons place before =>
            obtain ⟨_, htail⟩ := List.cons.inj hplaces
            obtain ⟨between, _, hsplit⟩ := split_at_core hplain hfirst htail.symm
            obtain ⟨init, found, next, others, rfl, hrest⟩ := ih hshaped.2 hbehind hsplit
            rw [Nat.add_assoc] at hrest
            exact ⟨layer :: init, found, next, others, rfl, hrest⟩

end Records

theorem Scans.yields {expected : Expected} {rest : Bytes} {found : Scanned Layer Ending}
    (h : Scans chainStep .silent expected rest found) {layer : Layer} {behind : List Layer}
    (hitems : found.items = layer :: behind) : expected.Yields rest layer.kind := by
  cases h with
  | stop _ => cases hitems
  | last hmove _ =>
      obtain ⟨rfl, _⟩ := List.cons.inj hitems
      exact (chainStep_eq_take_iff.mp hmove).2.yields
  | take hmove _ _ =>
      obtain ⟨rfl, _⟩ := List.cons.inj hitems
      exact (chainStep_eq_take_iff.mp hmove).2.yields

theorem Scans.consecutive {expected : Expected} {rest : Bytes}
    {found : Scanned Layer Ending} (h : Scans chainStep .silent expected rest found)
    (hstart : expected ≠ .ethernet .novellRaw) {init behind : List Layer} {layer next : Layer}
    (hitems : found.items = init ++ layer :: next :: behind) :
    ∃ before announced, before ≠ .ethernet .novellRaw ∧
      Finds (rest.drop (total Layer.span init)) before layer announced ∧
        announced.Yields (rest.drop (total Layer.span init + layer.span)) next.kind := by
  induction h generalizing init with
  | stop _ => cases init <;> cases hitems
  | last _ _ => cases init <;> simp at hitems
  | @take expected announced _ _ _ _ hmove _ hbehind ih =>
      obtain ⟨rfl, hfinds⟩ := chainStep_eq_take_iff.mp hmove
      rw [Scanned.cons_items] at hitems
      cases init with
      | nil =>
          obtain ⟨rfl, hothers⟩ := List.cons.inj hitems
          refine ⟨expected, announced, hstart, hfinds, ?_⟩
          rw [total_nil, Nat.zero_add]
          exact hbehind.yields hothers
      | cons first init =>
          obtain ⟨rfl, hothers⟩ := List.cons.inj hitems
          have hannounced : announced ≠ .ethernet .novellRaw := by
            rintro rfl
            cases hfinds.isEthernet_next
          obtain ⟨before, told, hbefore, htold, hyields⟩ := ih hannounced hothers
          rw [List.drop_drop] at htold hyields
          rw [total_cons, Nat.add_assoc]
          exact ⟨before, told, hbefore, htold, hyields⟩

section Trailing

theorem extensionTrailer_next {header : ExtensionHeader} {rest : Bytes} {trailer : Trailer}
    {number : Nat} (h : extensionTrailer header rest = some (trailer, some number)) :
    trailer.id = header.id ∧ u8? rest 0 = some number ∧
      header ≠ .encapsulatingSecurityPayload ∧
        (header = .fragment → ∃ word, u16? rest 2 = some word ∧ word / 8 = 0) := by
  cases header with
  | encapsulatingSecurityPayload => simp [extensionTrailer] at h
  | fragment =>
      simp only [extensionTrailer, Option.bind_eq_bind, Option.bind_eq_some_iff,
        Option.some.injEq, Prod.mk.injEq] at h
      obtain ⟨next, hnext, word, hword, rfl, hnumber⟩ := h
      split at hnumber
      · cases hnumber
      · rename_i hoffset
        cases hnumber
        refine ⟨rfl, hnext, by decide, fun _ => ⟨word, hword, Nat.eq_zero_of_not_pos hoffset⟩⟩
  | _ =>
      simp only [extensionTrailer, Option.bind_eq_bind, Option.bind_eq_some_iff,
        Option.some.injEq, Prod.mk.injEq] at h
      obtain ⟨next, hnext, _, _, rfl, rfl⟩ := h
      exact ⟨rfl, hnext, by decide, fun hfragment => by cases hfragment⟩

theorem Scans.number {state : Option Nat} {number : Nat} {rest : Bytes}
    {found : Scanned Trailer (Option Nat)} (h : Scans extensionStep none state rest found)
    (hverdict : found.verdict = some number) :
    (found.items = [] ∧ state = some number) ∨
      ∃ init last header, found.items = init ++ [last] ∧
        extensionTrailer header (rest.drop (total Trailer.length init)) =
          some (last, some number) := by
  induction h with
  | @stop state bytes verdict hmove =>
      refine .inl ⟨rfl, ?_⟩
      subst hverdict
      unfold extensionStep at hmove
      split at hmove
      · cases hmove
      · split at hmove
        · cases hmove
          rfl
        · split at hmove
          · cases hmove
          · cases hmove
  | last _ _ => cases hverdict
  | @take state next bytes trailer size behind hmove _ _ ih =>
      obtain ⟨code, header, rfl, _, htrailer, rfl⟩ := extensionStep_take hmove
      refine .inr ?_
      rcases ih hverdict with ⟨hitems, rfl⟩ | ⟨init, last, other, hitems, hlast⟩
      · refine ⟨[], trailer, header, ?_, htrailer⟩
        rw [Scanned.cons_items, hitems]
        rfl
      · refine ⟨trailer :: init, last, other, ?_, ?_⟩
        · rw [Scanned.cons_items, hitems]
          rfl
        · rw [total_cons, ← List.drop_drop]
          exact hlast

theorem getLast?_extensions (offset : Nat) (init : List Trailer) {last : Trailer}
    (h : last.IsExtension) :
    (((trailerPieces offset (init ++ [last])).map Piece.place).filter
      Placement.isExtension).getLast? =
        some ⟨last.id, offset + total Trailer.length init, last.length⟩ := by
  have hmembers : ((last.members.pieces (offset + total Trailer.length init)).map
      Piece.place).filter Placement.isExtension = [] := by
    rw [List.filter_eq_nil_iff]
    simpa using (h.owned (List.prefix_refl (last.members.pieces _))).1
  rw [trailerPieces_append, trailerPieces, trailerPieces, List.append_nil, List.map_append,
    List.map_cons, List.filter_append, List.filter_cons_of_pos (h.isExtension_place _), hmembers,
    List.getLast?_concat]

end Trailing

section Reads

variable {frame : Bytes} {captured start offset value : Nat}

theorem u8?_of_captured (h : u8? ((frame.take captured).drop start) offset = some value) :
    u8? frame (start + offset) = some value := by
  rw [u8?_drop] at h
  exact u8?_of_take h

theorem u16?_of_captured (h : u16? ((frame.take captured).drop start) offset = some value) :
    u16? frame (start + offset) = some value := by
  rw [u16?_drop] at h
  exact u16?_of_take h

theorem u32?_of_captured (h : u32? ((frame.take captured).drop start) offset = some value) :
    u32? frame (start + offset) = some value := by
  rw [u32?_drop] at h
  exact u32?_of_take h

theorem hasVersion_of_captured {kind : HeaderKind}
    (h : kind.HasVersion ((frame.take captured).drop start)) :
    kind.HasVersion (frame.drop start) := by
  obtain ⟨byte, hbyte, hkind⟩ := h
  refine ⟨byte, ?_, hkind⟩
  rw [u8?_drop]
  exact u8?_of_captured hbyte

end Reads

theorem HeaderKind.HasVersion.ne_mpls {kind : HeaderKind} {rest : Bytes}
    (h : kind.HasVersion rest) : kind ≠ .mpls := by
  rintro rfl
  obtain ⟨_, _, hkind⟩ := h
  rcases hkind with ⟨hkind, _⟩ | ⟨hkind, _⟩ <;> cases hkind

theorem givesNumber_of_trailers {frame : Bytes} {captured start code number length : Nat}
    (hcode : u8? ((frame.take captured).drop start) 6 = some code)
    (hverdict : (extensionTrailers code (((frame.take captured).drop start).drop 40)).verdict =
      some number) :
    GivesNumber frame ⟨HeaderKind.ipv6.id, start, length⟩ number
      (((trailerPieces (start + 40) (extensionTrailers code
        (((frame.take captured).drop start).drop 40)).items).map Piece.place).filter
          Placement.isExtension).getLast? := by
  have hscans : Scans extensionStep none (some code) (((frame.take captured).drop start).drop 40)
      (extensionTrailers code (((frame.take captured).drop start).drop 40)) :=
    scans_scan extensionStep_advances _ _
  have hextension :=
    extensionTrailers_isExtension code (((frame.take captured).drop start).drop 40)
  rcases hscans.number hverdict with ⟨hitems, hnumber⟩ | ⟨init, last, header, hitems, hlast⟩
  · cases hnumber
    rw [hitems]
    exact u8?_of_captured hcode
  · rw [hitems] at hextension ⊢
    rw [getLast?_extensions _ _ (hextension last (by simp))]
    rw [List.drop_drop, List.drop_drop] at hlast
    obtain ⟨hid, hnext, hopen, hfirst⟩ := extensionTrailer_next hlast
    have hread := u8?_of_captured hnext
    rw [Nat.add_assoc]
    refine ⟨hread, ?_, ?_⟩
    · dsimp only
      rw [hid]
      exact fun heq => hopen (ExtensionHeader.id_inj heq)
    · intro heq
      obtain ⟨word, hword, hzero⟩ := hfirst (ExtensionHeader.id_inj (hid.symm.trans heq))
      exact ⟨word, u16?_of_captured hword, hzero⟩

theorem namesField_of_captured {frame : Bytes} {captured start field : Nat} (length : Nat)
    {next : HeaderKind} {second : Placement}
    (hfield : u16? ((frame.take captured).drop start) (length - 2) = some field)
    (hlength : 2 ≤ length)
    (hyields : (Expected.ofTypeField field).Yields
      ((frame.take captured).drop second.offset) next) :
    ∃ field, u16? frame (start + length - 2) = some field ∧
      (next.HasEtherType field ∨
        next = .vlan ∧ (field = 0x8100 ∨ field = 0x88A8 ∨ field = 0x9100) ∨
          field < 0x0600 ∧
            (next = .ipx ∧ u16? frame second.offset = some 0xFFFF ∨
              next = .llc ∧ ∃ word, u16? frame second.offset = some word ∧ word ≠ 0xFFFF)) := by
  refine ⟨field, ?_, ?_⟩
  · rw [Nat.add_sub_assoc hlength]
    exact u16?_of_captured hfield
  · rcases Expected.typeField_of_yields hyields with htype | htag | ⟨hsized, hyields⟩
    · exact .inl htype
    · exact .inr (.inl htag)
    · refine .inr (.inr ⟨hsized, ?_⟩)
      rcases hyields with ⟨hipx, hmarker⟩ | ⟨hllc, word, hword, hother⟩
      · exact .inl ⟨hipx, u16?_of_captured hmarker⟩
      · exact .inr ⟨hllc, word, u16?_of_captured hword, hother⟩

/-- A header names the one that is expected behind it. -/
theorem Finds.names {frame : Bytes} {captured start : Nat} {expected announced : Expected}
    {layer : Layer} {next : HeaderKind} {second : Placement}
    (h : Finds ((frame.take captured).drop start) expected layer announced)
    (hstart : expected ≠ .ethernet .novellRaw)
    (hyields : announced.Yields ((frame.take captured).drop second.offset) next) :
    layer.kind.Names frame ⟨layer.kind.id, start, layer.span⟩
      ((layer.parts start).map Piece.place) second next := by
  induction h with
  | novellFrame => exact absurd rfl hstart
  | ethernet hfield => exact namesField_of_captured 14 hfield (by decide) hyields
  | vlan hfield => exact namesField_of_captured 4 hfield (by decide) hyields
  | snap htype =>
      exact ⟨_, u16?_of_captured htype, Expected.hasEtherType_of_yields hyields⟩
  | llc _ _ hdestination hsource hcontrol =>
      exact ⟨_, _, _, u8?_of_captured hdestination, u8?_of_captured hsource,
        u8?_of_captured hcontrol, Expected.servicePoints_of_yields hyields⟩
  | mpls hentry =>
      refine ⟨_, u32?_of_captured hentry, ?_⟩
      split at hyields
      · rename_i hbottom
        have hversion := hasVersion_of_captured hyields
        refine ⟨⟨?_, ?_⟩, .inr hversion⟩
        · exact fun hmpls => absurd hmpls hversion.ne_mpls
        · exact fun hclear => by simp [hbottom] at hclear
      · rename_i hbottom
        have hmpls : next = .mpls := hyields
        exact ⟨⟨fun _ => by simpa using hbottom, fun _ => hmpls⟩, .inl hmpls⟩
  | ipv4 _ _ _ hword hnumber =>
      split at hyields
      · exact hyields.elim
      · rename_i hfirst
        exact ⟨_, _, u16?_of_captured hword, Nat.eq_zero_of_not_pos hfirst,
          u8?_of_captured hnumber, Expected.ipNumber?_of_yields hyields⟩
  | ipv6 _ _ hcode hverdict =>
      exact ⟨_, Expected.ipNumber?_of_yields hyields, givesNumber_of_trailers hcode hverdict⟩
  | labelledIpv4 _ _ _ ih | labelledIpv6 _ _ _ ih | quotedIpv4 _ _ _ ih
  | quotedIpv6 _ _ _ ih => exact ih nofun hyields
  | gre _ htype _ =>
      exact ⟨_, u16?_of_captured htype, Expected.grePayload_of_yields hyields⟩
  | icmp6Error _ hkind =>
      have hversion := hasVersion_of_captured (Expected.yields_of_nested hyields)
      simp only [icmp6Errors, List.mem_cons, Prod.mk.injEq, List.not_mem_nil, or_false] at hkind
      rcases hkind with ⟨_, rfl⟩ | ⟨_, rfl⟩ | ⟨_, rfl⟩ <;> exact hversion
  | _ => exact hyields.elim

namespace Dissector

/-- In every packet of an Ethernet capture, a header that is recorded behind another
is one that the bytes of the other name. -/
theorem dispatch_dissect {dissector : Dissector} {frame : Bytes} {timestamp : UInt64}
    {captured wire count : Nat} (hextension : dissector.extension = none)
    (hdatalink : dissector.settings.datalink = .ethernet)
    (h : (dissector.dissect frame timestamp captured wire).result = .ok count)
    {before owned after : List Placement} {first second : Placement}
    (hplaces : (dissector.dissect frame timestamp captured wire).dissector.table.places =
      before ++ first :: (owned ++ second :: after))
    (hfirst : first.isCore = true) (hsecond : second.isCore = true)
    (howned : ∀ place ∈ owned, place.isCore = false) :
    ∃ kind next : HeaderKind, first.id = kind.id ∧ second.id = next.id ∧
      kind.Names frame first owned second next := by
  obtain ⟨_, hcaptured⟩ := captured?_of_dissect h
  rw [places_dissect timestamp hextension hcaptured, hdatalink] at hplaces
  have hscans : Scans chainStep .silent (.ethernet .ethernet) (frame.take captured)
      (frameChain .ethernet (frame.take captured)) := scans_scan chainStep_advances _ _
  obtain ⟨init, layer, next, behind, hlayers, rfl, rfl, hid, hoffset⟩ :=
    consecutive_of_front (chain_shaped _ _) (accepted_front _ _ _) hplaces hfirst hsecond howned
  obtain ⟨expected, announced, hstart, hfinds, hyields⟩ :=
    hscans.consecutive (by decide) hlayers
  rw [Nat.zero_add] at hoffset ⊢
  refine ⟨layer.kind, next.kind, rfl, hid, hfinds.names hstart ?_⟩
  rwa [hoffset]

theorem names_hopByHopFrame :
    ∃ kind next : HeaderKind, HeaderKind.ipv6.id = kind.id ∧ HeaderKind.udp.id = next.id ∧
      kind.Names hopByHopFrame ⟨HeaderKind.ipv6.id, 14, 48⟩
        [⟨ExtensionHeader.hopByHop.id, 54, 8⟩, ⟨HopByHopOption.padN.id, 56, 6⟩]
        ⟨HeaderKind.udp.id, 62, 8⟩ next := by
  have hresult : ((new .default).dissect hopByHopFrame 0 70 70).result = .ok 70 := by decide
  have hplaces : ((new .default).dissect hopByHopFrame 0 70 70).dissector.table.places =
      [⟨HeaderKind.ethernet.id, 0, 14⟩] ++ ⟨HeaderKind.ipv6.id, 14, 48⟩ ::
        ([⟨ExtensionHeader.hopByHop.id, 54, 8⟩, ⟨HopByHopOption.padN.id, 56, 6⟩] ++
          ⟨HeaderKind.udp.id, 62, 8⟩ :: []) := by decide
  exact dispatch_dissect rfl rfl hresult hplaces (by decide) (by decide) (by decide)

end Dissector

end Dissection

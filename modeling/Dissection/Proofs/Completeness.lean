import Dissection.Proofs.Dispatch
import Dissection.Proofs.Nesting
import Dissection.Proofs.Successors

/-!
Completeness of dispatch: the walk along the headers of a frame never stops early. Where
the last header recorded names another, something stands in the way of recording that one
(`completeness_dissect`).
-/

namespace Dissection

open Bytes

namespace Expected

variable {rest : Bytes} {next : HeaderKind}

theorem yields_ofEtherType {etherType : Nat} (h : next.HasEtherType etherType) :
    (ofEtherType etherType).Yields rest next := by
  cases next <;> first
    | exact h.elim
    | (cases (show etherType = _ from h); rfl)
    | (rcases h with rfl | rfl <;> rfl)

theorem yields_ofTypeField {field : Nat} (h : next.HasEtherType field) :
    (ofTypeField field).Yields rest next := by
  have hplain : EtherType.isTag field = false ∧ EtherType.least ≤ field := by
    cases next <;> first
      | exact h.elim
      | (cases (show field = _ from h); decide)
      | (rcases h with rfl | rfl <;> decide)
  rw [ofTypeField, hplain.1, if_neg Bool.false_ne_true, if_neg (Nat.not_lt.mpr hplain.2)]
  exact yields_ofEtherType h

theorem ofTypeField_of_sized {field : Nat} (h : field < 0x0600) : ofTypeField field = .sized := by
  have hplain : EtherType.isTag field = false := by
    rw [Bool.eq_false_iff]
    intro htag
    simp only [EtherType.isTag, Bool.or_eq_true, decide_eq_true_eq] at htag
    rcases htag with (rfl | rfl) | rfl <;> exact absurd h (by decide)
  rw [ofTypeField, hplain, if_neg Bool.false_ne_true]
  exact if_pos h

theorem yields_ofIpNumber (rest : Bytes) (depth : Nat) {number : Nat}
    (h : next.ipNumber? = some number) :
    (ofIpNumber depth number).Yields rest next ∨
      (next.isIp = true ∧ nestingLimit ≤ depth + 1) := by
  by_cases hdepth : depth + 1 < nestingLimit
  · left
    cases next <;> cases h <;> simp [ofIpNumber, nested, hdepth, Yields, HeaderKind.ipNumber?]
  · rw [Nat.not_lt] at hdepth
    cases next <;> cases h <;> first
      | exact .inr ⟨rfl, hdepth⟩
      | exact .inl rfl

theorem yields_nested (depth : Nat) (inside : Nat → Expected)
    (h : (inside (depth + 1)).Yields rest next) :
    (nested depth inside).Yields rest next ∨ nestingLimit ≤ depth + 1 := by
  unfold nested
  split
  · exact .inl h
  · exact .inr (Nat.le_of_not_lt ‹_›)

theorem yields_nested_ipv4 (rest : Bytes) (depth : Nat) :
    (nested depth .ipv4).Yields rest .ipv4 ∨ nestingLimit ≤ depth + 1 :=
  yields_nested depth .ipv4 rfl

theorem yields_nested_ipv6 (rest : Bytes) (depth : Nat) :
    (nested depth .ipv6).Yields rest .ipv6 ∨ nestingLimit ≤ depth + 1 :=
  yields_nested depth .ipv6 rfl

theorem yields_nested_quoted (depth : Nat) (h : next.HasVersion rest) :
    (nested depth .quoted).Yields rest next ∨ nestingLimit ≤ depth + 1 :=
  yields_nested depth .quoted h

end Expected

theorem HeaderKind.HasVersion.isIp {kind : HeaderKind} {rest : Bytes} (h : kind.HasVersion rest) :
    kind.isIp = true := by
  obtain ⟨_, _, ⟨rfl, _⟩ | ⟨rfl, _⟩⟩ := h <;> rfl

section Trailing

/-- What an extension header has to say for a number to be known behind it. -/
structure Trailer.Tells (trailer : Trailer) (rest : Bytes) (number : Nat) : Prop where
  number : u8? rest 0 = some number
  clear : trailer.id ≠ ExtensionHeader.encapsulatingSecurityPayload.id
  first : trailer.id = ExtensionHeader.fragment.id →
    ∃ word, u16? rest 2 = some word ∧ word / 8 = 0

theorem extensionTrailer_tells {header : ExtensionHeader} {rest : Bytes} {count : Nat}
    {trailer : Trailer} {next : Option Nat} {number : Nat}
    (h : extensionTrailer header (rest.take count) = some (trailer, next))
    (htells : trailer.Tells rest number) : next = some number := by
  obtain ⟨hnumber, hclear, hfirst⟩ := htells
  cases header with
  | encapsulatingSecurityPayload =>
      simp only [extensionTrailer, Option.some.injEq, Prod.mk.injEq] at h
      obtain ⟨rfl, _⟩ := h
      exact absurd rfl hclear
  | fragment =>
      simp only [extensionTrailer, Option.bind_eq_bind, Option.bind_eq_some_iff,
        Option.some.injEq, Prod.mk.injEq] at h
      obtain ⟨code, hcode, word, hword, rfl, rfl⟩ := h
      obtain ⟨other, hother, hzero⟩ := hfirst rfl
      cases hother.symm.trans (u16?_of_take hword)
      rw [if_neg (by simp [Fragment.ofIpv6, hzero]), ← hnumber, u8?_of_take hcode]
  | _ =>
      simp only [extensionTrailer, Option.bind_eq_bind, Option.bind_eq_some_iff,
        Option.some.injEq, Prod.mk.injEq] at h
      obtain ⟨code, hcode, _, _, _, rfl⟩ := h
      rw [← hnumber, u8?_of_take hcode]

theorem Scans.number_behind {state : Option Nat} {short : Bytes}
    {found : Scanned Trailer (Option Nat)} (h : Scans extensionStep none state short found)
    {rest : Bytes} {count number : Nat} (hshort : rest.take count = short)
    {init behind : List Trailer} (hitems : found.items = init ++ behind)
    (hinit : total Trailer.length init ≤ short.length)
    (htells : (init = [] ∧ state = some number) ∨ ∃ before last, init = before ++ [last] ∧
      last.Tells (rest.drop (total Trailer.length before)) number) :
    (behind = [] ∧ found.verdict = some number) ∨
      ∃ header, ExtensionHeader.ofCode? number = some header := by
  induction h generalizing init rest count with
  | @stop state short verdict hmove =>
      rcases htells with ⟨rfl, rfl⟩ | ⟨before, last, rfl, _⟩
      · cases hheader : ExtensionHeader.ofCode? number with
        | some header => exact .inr ⟨header, rfl⟩
        | none =>
            simp only [extensionStep, hheader, Move.stop.injEq] at hmove
            exact .inl ⟨hitems.symm, hmove.symm⟩
      · simp at hitems
  | last hmove hsize =>
      obtain ⟨code, header, rfl, hheader, _, rfl⟩ := extensionStep_take hmove
      cases init with
      | nil =>
          rcases htells with ⟨_, hstate⟩ | ⟨before, last, hinit, _⟩
          · cases hstate
            exact .inr ⟨header, hheader⟩
          · simp at hinit
      | cons trailer init =>
          obtain ⟨rfl, _⟩ := List.cons.inj hitems
          rw [total_cons] at hinit
          omega
  | @take state next short trailer size found hmove hsize hbehind ih =>
      subst hshort
      obtain ⟨code, header, rfl, hheader, htrailer, rfl⟩ := extensionStep_take hmove
      cases init with
      | nil =>
          rcases htells with ⟨_, hstate⟩ | ⟨before, last, hinit, _⟩
          · cases hstate
            exact .inr ⟨header, hheader⟩
          · simp at hinit
      | cons first init =>
          obtain ⟨rfl, hothers⟩ := List.cons.inj hitems
          rw [total_cons] at hinit
          refine ih List.drop_take.symm hothers (by rw [List.length_drop]; omega) ?_
          rcases htells with ⟨hnil, _⟩ | ⟨before, last, hlast, htold⟩
          · cases hnil
          · cases before with
            | nil =>
                obtain ⟨rfl, rfl⟩ := List.cons.inj hlast
                exact .inl ⟨rfl, extensionTrailer_tells htrailer htold⟩
            | cons other before =>
                obtain ⟨rfl, rfl⟩ := List.cons.inj hlast
                rw [total_cons, ← List.drop_drop] at htold
                exact .inr ⟨before, last, rfl, htold⟩

theorem number_of_gives {frame : Bytes} {captured start code number length : Nat}
    {init behind : List Trailer} (hcode : u8? ((frame.take captured).drop start) 6 = some code)
    (hitems : (extensionTrailers code (((frame.take captured).drop start).drop 40)).items =
      init ++ behind)
    (hinit : total Trailer.length init ≤ (((frame.take captured).drop start).drop 40).length)
    (hgives : GivesNumber frame ⟨HeaderKind.ipv6.id, start, length⟩ number
      (((trailerPieces (start + 40) init).map Piece.place).filter
        Placement.isExtension).getLast?) :
    (behind = [] ∧ (extensionTrailers code
      (((frame.take captured).drop start).drop 40)).verdict = some number) ∨
        ∃ header, ExtensionHeader.ofCode? number = some header := by
  have hextension := extensionTrailers_isExtension code (((frame.take captured).drop start).drop 40)
  have hscans : Scans extensionStep none (some code) (((frame.take captured).drop start).drop 40)
      (extensionTrailers code (((frame.take captured).drop start).drop 40)) :=
    scans_scan extensionStep_advances _ _
  have hshort : (frame.drop (start + 40)).take (captured - (start + 40)) =
      ((frame.take captured).drop start).drop 40 := by
    rw [List.drop_drop, List.drop_take]
  refine hscans.number_behind hshort hitems hinit ?_
  rcases List.eq_nil_or_concat init with rfl | ⟨before, last, rfl⟩
  · left
    have hread : u8? frame (start + 6) = some number := hgives
    cases hread.symm.trans (u8?_of_captured hcode)
    exact ⟨rfl, rfl⟩
  · right
    rw [List.concat_eq_append] at hitems hgives ⊢
    rw [hitems] at hextension
    rw [getLast?_extensions _ _ (hextension last (by simp))] at hgives
    obtain ⟨hnumber, hclear, hfirst⟩ := hgives
    refine ⟨before, last, rfl, ?_, hclear, fun hid => ?_⟩
    · rw [List.drop_drop, u8?_drop]
      exact hnumber
    · obtain ⟨word, hword, hzero⟩ := hfirst hid
      refine ⟨word, ?_, hzero⟩
      rw [List.drop_drop, u16?_drop]
      exact hword

theorem ofCode?_of_ipNumber {kind : HeaderKind} {number : Nat}
    (h : kind.ipNumber? = some number) : ExtensionHeader.ofCode? number = none := by
  cases kind <;> cases h <;> decide

theorem takeWhile_trailerPieces {trailers : List Trailer} {offset limit : Nat}
    (h : ∀ trailer ∈ trailers, trailer.members.Within trailer.length) (hoffset : offset ≤ limit) :
    ∃ init behind, trailers = init ++ behind ∧
      (trailerPieces offset trailers).takeWhile (fun piece => piece.place.stop ≤ limit) =
        trailerPieces offset init ∧ offset + total Trailer.length init ≤ limit := by
  induction trailers generalizing offset with
  | nil => exact ⟨[], [], rfl, rfl, hoffset⟩
  | cons trailer rest ih =>
      rw [List.forall_mem_cons] at h
      by_cases hstop : offset + trailer.length ≤ limit
      · obtain ⟨init, behind, rfl, htaken, htotal⟩ := ih h.2 hstop
        refine ⟨trailer :: init, behind, rfl, ?_, ?_⟩
        · rw [trailerPieces, List.takeWhile_cons_of_pos (by rwa [decide_eq_true_eq]),
            List.takeWhile_append_of_pos, htaken, trailerPieces]
          intro piece hpiece
          have := Members.stop_le_of_mem_pieces h.1 hpiece
          rw [decide_eq_true_eq]
          omega
        · rw [total_cons]
          omega
      · refine ⟨[], trailer :: rest, rfl, ?_, hoffset⟩
        rw [trailerPieces, trailerPieces,
          List.takeWhile_cons_of_neg (by rwa [decide_eq_true_eq, Placement.stop])]

end Trailing

section Announced

variable {frame : Bytes} {captured start : Nat} {expected announced : Expected} {layer : Layer}
  {next : HeaderKind} {second : Placement}

theorem takeWhile_of_within (hnone : layer.trailers = none)
    (hwithin : layer.members.Within layer.length) (hfits : start + layer.length ≤ captured) :
    (layer.parts start).takeWhile (fun piece => piece.place.stop ≤ captured) =
      layer.parts start := by
  rw [Layer.parts_eq_members hnone, List.takeWhile_eq_self_iff]
  intro piece hpiece
  have := Members.stop_le_of_mem_pieces hwithin hpiece
  rw [decide_eq_true_eq]
  omega

theorem Finds.whole_of_names (h : Finds ((frame.take captured).drop start) expected layer announced)
    (hcaptured : captured ≤ frame.length) (hfits : start + layer.length ≤ captured)
    {parts : List Piece}
    (hparts : (layer.parts start).takeWhile (fun piece => piece.place.stop ≤ captured) = parts)
    (hnames : layer.kind.Names frame ⟨layer.kind.id, start, layer.length + trailed parts⟩
      (parts.map Piece.place) second next) : parts = layer.parts start := by
  induction h with
  | ipv4 _ _ hlength _ _ =>
      rw [← hparts]
      exact takeWhile_of_within rfl (optionEntries_within_header _ hlength _) hfits
  | tcp _ _ | icmp6Report _ => exact hnames.elim
  | icmp6Discovery _ hkind =>
      simp only [icmp6Discoveries, List.mem_cons, Prod.mk.injEq, List.not_mem_nil,
        or_false] at hkind
      rcases hkind with ⟨_, rfl, rfl⟩ | ⟨_, rfl, rfl⟩ | ⟨_, rfl, rfl⟩ | ⟨_, rfl, rfl⟩ <;>
        exact hnames.elim
  | ipv6Cut _ _ hcode _ | ipv6 _ _ hcode _ =>
      obtain ⟨init, behind, hitems, htaken, htotal⟩ := takeWhile_trailerPieces
        (fun trailer htrailer => (extensionTrailers_isExtension _ _ trailer htrailer).within) hfits
      cases hparts.symm.trans htaken
      obtain ⟨number, hnumber, hgives⟩ := hnames
      have hinit : total Trailer.length init ≤
          (((frame.take captured).drop start).drop 40).length := by
        rw [List.length_drop, List.length_drop, List.length_take_of_le hcaptured]
        change start + 40 + _ ≤ captured at htotal
        omega
      rcases number_of_gives hcode hitems hinit hgives with ⟨rfl, _⟩ | ⟨header, hheader⟩
      · rw [List.append_nil] at hitems
        rw [← hitems]
        rfl
      · rw [ofCode?_of_ipNumber hnumber] at hheader
        cases hheader
  | labelledIpv4 _ _ _ ih | labelledIpv6 _ _ _ ih | quotedIpv4 _ _ _ ih
  | quotedIpv6 _ _ _ ih => exact ih hfits hparts hnames
  | _ => exact hparts.symm

theorem u16?_of_whole {length field : Nat} (hread : u16? frame (start + length - 2) = some field)
    (hlength : 2 ≤ length) (hfits : start + length ≤ captured) :
    u16? ((frame.take captured).drop start) (length - 2) = some field := by
  rw [u16?_drop, ← Nat.add_sub_assoc hlength, u16?_take _ (by omega)]
  exact hread

theorem yields_of_typeField {field : Nat} (length : Nat)
    (hfield : u16? ((frame.take captured).drop start) (length - 2) = some field)
    (hlength : 2 ≤ length)
    (hnames : ∃ field, u16? frame (start + length - 2) = some field ∧
      (next.HasEtherType field ∨
        next = .vlan ∧ (field = 0x8100 ∨ field = 0x88A8 ∨ field = 0x9100) ∨
          field < 0x0600 ∧
            (next = .ipx ∧ u16? frame second.offset = some 0xFFFF ∨
              next = .llc ∧ ∃ word, u16? frame second.offset = some word ∧ word ≠ 0xFFFF))) :
    (Expected.ofTypeField field).Yields (frame.drop second.offset) next := by
  obtain ⟨other, hother, hnext⟩ := hnames
  rw [Nat.add_sub_assoc hlength] at hother
  cases hother.symm.trans (u16?_of_captured hfield)
  rcases hnext with htype | ⟨rfl, htag⟩ | ⟨hsized, hnext⟩
  · exact Expected.yields_ofTypeField htype
  · rcases htag with rfl | rfl | rfl <;> rfl
  · rw [Expected.ofTypeField_of_sized hsized]
    simpa only [Expected.Yields, u16?_drop, Nat.add_zero] using hnext

theorem Finds.announces (h : Finds ((frame.take captured).drop start) expected layer announced)
    (hstart : expected ≠ .ethernet .novellRaw) (hfits : start + layer.length ≤ captured)
    (hnames : layer.kind.Names frame ⟨layer.kind.id, start, layer.span⟩
      ((layer.parts start).map Piece.place) second next)
    (hwhole : total Trailer.length (layer.trailers.getD []) ≤
      (((frame.take captured).drop start).drop layer.length).length) :
    announced.Yields (frame.drop second.offset) next ∨
      (layer.kind.nests = true ∧ next.isIp = true ∧
        Expected.nestingLimit ≤ layer.depth + 1) := by
  induction h with
  | novellFrame => exact absurd rfl hstart
  | ethernetCut hfield =>
      obtain ⟨field, hread, _⟩ := hnames
      have hcut := u16?_of_whole (show u16? frame (start + 14 - 2) = some field from hread)
        (by decide) hfits
      cases hfield.symm.trans hcut
  | vlanCut hfield =>
      obtain ⟨field, hread, _⟩ := hnames
      have hcut := u16?_of_whole (show u16? frame (start + 4 - 2) = some field from hread)
        (by decide) hfits
      cases hfield.symm.trans hcut
  | snapCut htype =>
      obtain ⟨type, hread, _⟩ := hnames
      have hcut := u16?_of_whole (show u16? frame (start + 5 - 2) = some type from hread)
        (by decide) hfits
      cases htype.symm.trans hcut
  | ethernet hfield => exact .inl (yields_of_typeField 14 hfield (by decide) hnames)
  | vlan hfield => exact .inl (yields_of_typeField 4 hfield (by decide) hnames)
  | snap htype =>
      obtain ⟨type, hread, hnext⟩ := hnames
      cases hread.symm.trans (u16?_of_captured htype)
      exact .inl (Expected.yields_ofEtherType hnext)
  | llc _ _ hdestination hsource hcontrol =>
      obtain ⟨_, _, _, hreadDestination, hreadSource, hreadControl, hnext⟩ := hnames
      cases hreadDestination.symm.trans (u8?_of_captured hdestination)
      cases hreadSource.symm.trans (u8?_of_captured hsource)
      cases hreadControl.symm.trans (u8?_of_captured hcontrol)
      left
      rcases hnext with ⟨rfl, rfl, rfl, rfl⟩ | ⟨rfl, rfl, rfl⟩ | ⟨rfl, rfl, rfl⟩ <;> rfl
  | mpls hentry =>
      obtain ⟨_, hread, hbottom, hnext⟩ := hnames
      cases hread.symm.trans (u32?_of_captured hentry)
      left
      split
      · rename_i hset
        refine hnext.resolve_left fun hmpls => ?_
        rw [hbottom.mp hmpls] at hset
        cases hset
      · rename_i hclear
        exact hbottom.mpr (by simpa using hclear)
  | ipv4 _ _ _ hword hnumber =>
      obtain ⟨_, _, hreadWord, hzero, hreadNumber, hnext⟩ := hnames
      cases hreadWord.symm.trans (u16?_of_captured hword)
      cases hreadNumber.symm.trans (u8?_of_captured hnumber)
      rw [if_neg (by omega)]
      exact (Expected.yields_ofIpNumber _ _ hnext).imp_right fun hdeep => ⟨rfl, hdeep⟩
  | ipv6Cut _ _ hcode hverdict | ipv6 _ _ hcode hverdict =>
      obtain ⟨number, hnext, hgives⟩ := hnames
      rcases number_of_gives hcode (List.append_nil _).symm hwhole hgives with
        ⟨_, hnumber⟩ | ⟨header, hheader⟩
      · cases hverdict.symm.trans hnumber
        try exact (Expected.yields_ofIpNumber _ _ hnext).imp_right fun hdeep => ⟨rfl, hdeep⟩
      · rw [ofCode?_of_ipNumber hnext] at hheader
        cases hheader
  | labelledIpv4 _ _ _ ih | labelledIpv6 _ _ _ ih | quotedIpv4 _ _ _ ih
  | quotedIpv6 _ _ _ ih => exact ih nofun hfits hnames hwhole
  | gre _ htype _ =>
      obtain ⟨_, hread, hnext⟩ := hnames
      cases hread.symm.trans (u16?_of_captured htype)
      rcases hnext with ⟨rfl, rfl⟩ | ⟨rfl, rfl⟩
      · exact (Expected.yields_nested_ipv4 _ _).imp_right fun hdeep => ⟨rfl, rfl, hdeep⟩
      · exact (Expected.yields_nested_ipv6 _ _).imp_right fun hdeep => ⟨rfl, rfl, hdeep⟩
  | icmp6Error _ hkind =>
      simp only [icmp6Errors, List.mem_cons, Prod.mk.injEq, List.not_mem_nil, or_false] at hkind
      have hversion : next.HasVersion (frame.drop second.offset) := by
        rcases hkind with ⟨_, rfl⟩ | ⟨_, rfl⟩ | ⟨_, rfl⟩ <;> exact hnames
      refine (Expected.yields_nested_quoted _ hversion).imp_right fun hdeep =>
        ⟨?_, hversion.isIp, hdeep⟩
      rcases hkind with ⟨_, rfl⟩ | ⟨_, rfl⟩ | ⟨_, rfl⟩ <;> rfl
  | icmp4Echo _ hkind =>
      simp only [icmp4Echoes, List.mem_cons, Prod.mk.injEq, List.not_mem_nil, or_false] at hkind
      rcases hkind with ⟨_, rfl⟩ | ⟨_, rfl⟩ <;> exact hnames.elim
  | icmp6Echo _ hkind =>
      simp only [icmp6Echoes, List.mem_cons, Prod.mk.injEq, List.not_mem_nil, or_false] at hkind
      rcases hkind with ⟨_, rfl⟩ | ⟨_, rfl⟩ <;> exact hnames.elim
  | icmp6Discovery _ hkind =>
      simp only [icmp6Discoveries, List.mem_cons, Prod.mk.injEq, List.not_mem_nil,
        or_false] at hkind
      rcases hkind with ⟨_, rfl, rfl⟩ | ⟨_, rfl, rfl⟩ | ⟨_, rfl, rfl⟩ | ⟨_, rfl, rfl⟩ <;>
        exact hnames.elim
  | _ => exact hnames.elim

end Announced

theorem Scans.items_of_finds {expected next : Expected} {rest : Bytes} {layer : Layer}
    {found : Scanned Layer Ending} (h : Scans chainStep .silent expected rest found)
    (hfinds : Finds rest expected layer next) : ∃ behind, found.items = layer :: behind := by
  have hmove := hfinds.chainStep_eq
  cases h with
  | stop hother => cases hother.symm.trans hmove
  | last hother _ =>
      cases hother.symm.trans hmove
      exact ⟨[], rfl⟩
  | take hother _ _ =>
      cases hother.symm.trans hmove
      exact ⟨_, rfl⟩

section Last

variable {front parts : List Piece} {init behind layers : List Layer} {layer : Layer}
  {offset limit : Nat}

theorem layerPieces_append (offset : Nat) (layers behind : List Layer) :
    layerPieces offset (layers ++ behind) =
      layerPieces offset layers ++ layerPieces (offset + total Layer.span layers) behind := by
  induction layers generalizing offset with
  | nil => rfl
  | cons layer rest ih =>
      rw [List.cons_append, layerPieces, layerPieces, ih, total_cons, List.append_assoc,
        Nat.add_assoc]

theorem last_header_unique {before after owned others : List Placement}
    {last other : Placement} (h : before ++ last :: owned = after ++ other :: others)
    (hlast : last.isCore = true) (hother : other.isCore = true)
    (howned : ∀ place ∈ owned, place.isCore = false)
    (hothers : ∀ place ∈ others, place.isCore = false) : last = other ∧ owned = others := by
  rcases List.append_eq_append_iff.mp h with ⟨missing, _, htail⟩ | ⟨missing, _, htail⟩
  · cases missing with
    | nil => exact List.cons.inj htail
    | cons place missing =>
        obtain ⟨rfl, rfl⟩ := List.cons.inj htail
        simp [howned other (by simp)] at hother
  · cases missing with
    | nil => exact List.cons.inj htail.symm
    | cons place missing =>
        obtain ⟨rfl, rfl⟩ := List.cons.inj htail
        simp [hothers last (by simp)] at hlast

theorem accepted_eq_takeWhile {room : Nat} {pieces : List Piece}
    (h : (accepted room limit pieces).length ≠ room) :
    accepted room limit pieces = pieces.takeWhile fun piece => piece.place.stop ≤ limit := by
  rw [accepted, List.length_take] at h
  rw [accepted, List.take_of_length_le (by omega)]

theorem last_of_front (hfront : front <+: layerPieces offset layers) (hne : front ≠ []) :
    ∃ init layer behind parts, layers = init ++ layer :: behind ∧
      parts <+: layer.parts (offset + total Layer.span init) ∧
        front = layerPieces offset init ++
          ⟨.header, layer.kind.id, offset + total Layer.span init, layer.length⟩ :: parts := by
  induction layers generalizing offset front with
  | nil => exact absurd (List.prefix_nil.mp hfront) hne
  | cons layer rest ih =>
      rcases front_layerPieces_cases hfront with rfl | ⟨parts, tail, rfl, hparts, htail, hwhole⟩
      · exact absurd rfl hne
      · cases tail with
        | nil =>
            refine ⟨[], layer, rest, parts, rfl, hparts, ?_⟩
            rw [List.append_nil]
            rfl
        | cons piece tail =>
            cases hwhole.resolve_left (List.cons_ne_nil piece tail)
            obtain ⟨init, last, behind, others, rfl, hothers, heq⟩ :=
              ih htail (List.cons_ne_nil piece tail)
            rw [Nat.add_assoc] at hothers heq
            refine ⟨layer :: init, last, behind, others, rfl, hothers, ?_⟩
            rw [heq, layerPieces, Layer.pieces, List.cons_append, List.cons_append,
              List.append_assoc]
            rfl

theorem refused_of_takeWhile
    (hfront : (layerPieces offset (init ++ layer :: behind)).takeWhile
        (fun piece => piece.place.stop ≤ limit) = layerPieces offset init ++
          ⟨.header, layer.kind.id, offset + total Layer.span init, layer.length⟩ :: parts)
    (hparts : parts <+: layer.parts (offset + total Layer.span init)) :
    (layer.parts (offset + total Layer.span init)).takeWhile
        (fun piece => piece.place.stop ≤ limit) = parts ∧
      (parts = layer.parts (offset + total Layer.span init) →
        ∀ next others, behind = next :: others →
          limit < offset + total Layer.span init + layer.span + next.length) := by
  generalize hstart : offset + total Layer.span init = start at *
  have hfits : ∀ piece ∈ layerPieces offset init ++
      [(⟨.header, layer.kind.id, start, layer.length⟩ : Piece)],
        decide (piece.place.stop ≤ limit) = true := by
    intro piece hpiece
    have hmem : piece ∈ (layerPieces offset (init ++ layer :: behind)).takeWhile
        fun piece => decide (piece.place.stop ≤ limit) := by
      rw [hfront, ← List.singleton_append, ← List.append_assoc]
      exact List.mem_append_left parts hpiece
    exact List.mem_takeWhile_imp (p := fun piece : Piece => piece.place.stop ≤ limit) hmem
  rw [layerPieces_append, hstart, layerPieces, Layer.pieces, List.cons_append,
    ← List.singleton_append, ← List.append_assoc, List.takeWhile_append_of_pos hfits,
    List.append_assoc, List.singleton_append, List.append_cancel_left_eq, List.cons.injEq,
    List.takeWhile_append] at hfront
  have htaken := hfront.2
  split at htaken
  · rename_i hall
    have hwhole := (List.takeWhile_prefix fun piece : Piece =>
      decide (piece.place.stop ≤ limit)).eq_of_length hall
    have hlength := hparts.length_le
    rw [← htaken, List.length_append] at hlength
    have hnil := List.length_eq_zero_iff.mp (by omega :
      ((layerPieces (start + layer.span) behind).takeWhile
        fun piece => decide (piece.place.stop ≤ limit)).length = 0)
    rw [hnil, List.append_nil] at htaken
    refine ⟨hwhole.trans htaken, ?_⟩
    rintro - next others rfl
    rw [layerPieces, Layer.pieces, List.cons_append, List.takeWhile_cons] at hnil
    split at hnil
    · cases hnil
    · rename_i hbeyond
      rwa [decide_eq_true_eq, Placement.stop, Nat.not_le] at hbeyond
  · rename_i hpart
    refine ⟨htaken, ?_⟩
    rintro rfl
    exact absurd (congrArg List.length htaken) hpart

end Last

/-- What keeps a header of kind `next` from being recorded at an offset, where a header of
kind `kind` names it. -/
inductive Obstacle (frame : Bytes) (captured : Nat) (table : RecordTable) (kind : HeaderKind)
    (offset : Nat) (next : HeaderKind) : Prop where
  /-- It does not end within the captured bytes. -/
  | cut (hcut : ∀ length, next.Measures (frame.drop offset) length → captured < offset + length)
  /-- There is no room for it. -/
  | full (hfull : table.size = RecordTable.capacity)
  /-- It is nested in four IP headers. -/
  | nested (hkind : kind.nests = true) (hnext : next.isIp = true)
      (hcount : ipPlaces table.places = 4)
  /-- It fails its own check. -/
  | failing (hfails : next.Fails (frame.drop offset))

section Obstacles

variable {frame : Bytes} {captured : Nat} {table : RecordTable} {found : Scanned Layer Ending}
  {init behind : List Layer} {layer : Layer} {parts : List Piece}

theorem Scans.obstacle
    (h : Scans chainStep .silent (.ethernet .ethernet) (frame.take captured) found)
    (hitems : found.items = init ++ layer :: behind) (hcaptured : captured ≤ frame.length)
    (hshaped : ∀ layer ∈ init, layer.Shaped)
    (hparts : parts <+: layer.parts (total Layer.span init))
    (hplaces : table.places = widened (layerPieces 0 init) ++
      ⟨layer.kind.id, total Layer.span init, layer.length + trailed parts⟩ ::
        parts.map Piece.place)
    (hstop : total Layer.span init + (layer.length + trailed parts) ≤ captured)
    (hfront : (layerPieces 0 found.items).takeWhile (fun piece => piece.place.stop ≤ captured) =
      layerPieces 0 init ++
        ⟨.header, layer.kind.id, total Layer.span init, layer.length⟩ :: parts)
    {second : Placement} {next : HeaderKind}
    (hoffset : second.offset = total Layer.span init + (layer.length + trailed parts))
    (hnames : layer.kind.Names frame
      ⟨layer.kind.id, total Layer.span init, layer.length + trailed parts⟩
      (parts.map Piece.place) second next) :
    Obstacle frame captured table layer.kind second.offset next := by
  obtain ⟨expected, hstart, hbehind, hresumed⟩ :=
    h.resume (by decide) (by rfl : (Expected.ethernet .ethernet).Behind 0) hitems
  obtain ⟨announced, hfinds, hresumed⟩ := hresumed.first
  rw [hitems, ← Nat.zero_add (total Layer.span init)] at hfront
  obtain ⟨htaken, hrefused⟩ := refused_of_takeWhile hfront (by rwa [Nat.zero_add])
  rw [Nat.zero_add] at htaken hrefused
  obtain rfl := hfinds.whole_of_names hcaptured (by omega) htaken hnames
  rw [layer.length_add_trailed] at hstop hoffset hnames
  replace hresumed := hresumed.resolve_left
    (by rw [List.length_drop, List.length_take_of_le hcaptured]; omega)
  rw [List.drop_drop] at hresumed
  have hwhole : total Layer.span init + layer.length + total Trailer.length
      (layer.trailers.getD []) ≤ captured := by
    rwa [Nat.add_assoc]
  rcases hfinds.announces hstart (by omega) hnames
    (by rw [List.length_drop, List.length_drop, List.length_take_of_le hcaptured]; omega) with
    hyields | ⟨hnests, hip, hdeep⟩
  · by_cases hfails : next.Fails (frame.drop second.offset)
    · exact .failing hfails
    · refine .cut fun length hmeasures => ?_
      by_contra hle
      obtain ⟨met, after, hmet, rfl⟩ := hyields.meets hmeasures hfails
        (show length ≤ captured - second.offset by omega) (by rw [List.length_drop]; omega)
      rw [← List.drop_take, hoffset] at hmet
      obtain ⟨others, hothers⟩ := hresumed.items_of_finds hmet
      have hbeyond := hrefused rfl met others hothers
      omega
  · refine .nested hnests hip ?_
    obtain ⟨hcount, hlimit⟩ := (hfinds.behind hbehind).2 hnests
    have hlast := hfinds.shaped.ipPlaces_eq hparts (total Layer.span init)
      (layer.length + trailed (layer.parts (total Layer.span init)))
    have hinit := ipPlaces_layerPieces 0 hshaped
    rw [ipPlaces] at hlast hinit ⊢
    rw [hplaces, List.countP_append, hinit, hlast]
    change 4 ≤ _ at hdeep
    change _ < 4 at hlimit
    omega

end Obstacles

namespace Dissector

theorem stop_le_of_dissect {dissector : Dissector} {frame bytes : Bytes} {captured wire : Nat}
    (timestamp : UInt64) (hextension : dissector.extension = none)
    (h : dissector.captured? frame captured wire = .ok bytes) :
    ∀ place ∈ (dissector.dissect frame timestamp captured wire).dissector.table.places,
      place.stop ≤ captured := by
  have hsound := sound_dissect timestamp h
  have hlimit : (dissector.dissect frame timestamp captured wire).dissector.table.limit =
      captured := by
    rw [hsound.limit_eq, packet_dissect timestamp hextension h]
  intro place hplace
  obtain ⟨record, hrecord, rfl⟩ := List.mem_map.mp hplace
  exact (hsound.table.stop_le record hrecord).trans_eq hlimit

/-- In every packet of an Ethernet capture, there is an obstacle to the header that the
bytes of the last header recorded name behind it. -/
theorem completeness_dissect {dissector : Dissector} {frame : Bytes} {timestamp : UInt64}
    {captured wire count : Nat} (hextension : dissector.extension = none)
    (hdatalink : dissector.settings.datalink = .ethernet) (hethernet : 14 ≤ captured)
    (h : (dissector.dissect frame timestamp captured wire).result = .ok count) :
    ∃ before last owned, ∃ kind : HeaderKind,
      (dissector.dissect frame timestamp captured wire).dissector.table.places =
          before ++ last :: owned ∧
        last.id = kind.id ∧ (∀ place ∈ owned, place.isCore = false) ∧
          ∀ second next, second.offset = last.stop → kind.Names frame last owned second next →
            Obstacle frame captured
              (dissector.dissect frame timestamp captured wire).dissector.table kind last.stop
                next := by
  obtain ⟨hlength, hcaptured⟩ := captured?_of_dissect h
  have hplaces := places_dissect timestamp hextension hcaptured
  have hstops := stop_le_of_dissect timestamp hextension hcaptured
  generalize (dissector.dissect frame timestamp captured wire).dissector.table = table at *
  rw [hdatalink] at hplaces
  have hscans : Scans chainStep .silent (.ethernet .ethernet) (frame.take captured)
      (frameChain .ethernet (frame.take captured)) := scans_scan chainStep_advances _ _
  have hshaped := chain_shaped (.ethernet .ethernet) (frame.take captured)
  obtain ⟨_, _, _, hfirst⟩ := accepted_framePieces .ethernet (frame.take captured) hethernet
  obtain ⟨init, layer, behind, parts, hlayers, hparts, hlast⟩ := last_of_front
    (accepted_front RecordTable.capacity captured (framePieces .ethernet (frame.take captured)))
    (by rw [hfirst]; exact List.cons_ne_nil _ _)
  have hmember : ∀ other ∈ init ++ layer :: behind, other.Shaped := by
    rw [← hlayers]
    exact hshaped
  rw [List.forall_mem_append, List.forall_mem_cons] at hmember
  rw [Nat.zero_add] at hparts hlast
  have htable : table.places = widened (layerPieces 0 init) ++
      ⟨layer.kind.id, total Layer.span init, layer.length + trailed parts⟩ ::
        parts.map Piece.place := by
    rw [hplaces, hlast, widened_append_header, widened,
      widened_eq_map fun piece hpiece => Layer.role_of_mem_parts (hparts.subset hpiece)]
  refine ⟨_, _, _, layer.kind, htable, rfl, hmember.2.1.isCore_parts hparts, ?_⟩
  intro second next hoffset hnames
  by_cases hfull : table.size = RecordTable.capacity
  · exact .full hfull
  · have hlastStop := hstops
      ⟨layer.kind.id, total Layer.span init, layer.length + trailed parts⟩ (by simp [htable])
    rw [table.size_eq_length_places, hplaces, widened_length] at hfull
    rw [accepted_eq_takeWhile hfull] at hlast
    rw [← hoffset]
    exact hscans.obstacle hlayers hlength hmember.1 hparts htable hlastStop hlast hoffset hnames

theorem obstacle_hopByHopFrame :
    HeaderKind.ipv6.Names hopByHopFrame ⟨HeaderKind.ipv6.id, 14, 48⟩
        [⟨ExtensionHeader.hopByHop.id, 54, 8⟩, ⟨HopByHopOption.padN.id, 56, 6⟩]
        ⟨HeaderKind.udp.id, 62, 8⟩ .udp ∧
      Obstacle hopByHopFrame 62 ((new .default).dissect hopByHopFrame 0 62 70).dissector.table
        .ipv6 62 .udp := by
  have hnames : HeaderKind.ipv6.Names hopByHopFrame ⟨HeaderKind.ipv6.id, 14, 48⟩
      [⟨ExtensionHeader.hopByHop.id, 54, 8⟩, ⟨HopByHopOption.padN.id, 56, 6⟩]
      ⟨HeaderKind.udp.id, 62, 8⟩ .udp := by
    have hlast : ([⟨ExtensionHeader.hopByHop.id, 54, 8⟩, ⟨HopByHopOption.padN.id, 56, 6⟩].filter
        Placement.isExtension).getLast? = some ⟨ExtensionHeader.hopByHop.id, 54, 8⟩ := by decide
    refine ⟨17, rfl, ?_⟩
    rw [hlast]
    exact ⟨by decide, by decide, fun hid => absurd hid (by decide)⟩
  have hresult : ((new .default).dissect hopByHopFrame 0 62 70).result = .ok 62 := by decide
  have hrecorded : ((new .default).dissect hopByHopFrame 0 62 70).dissector.table.places =
      [⟨HeaderKind.ethernet.id, 0, 14⟩, ⟨HeaderKind.ipv6.id, 14, 48⟩,
        ⟨ExtensionHeader.hopByHop.id, 54, 8⟩, ⟨HopByHopOption.padN.id, 56, 6⟩] := by decide
  obtain ⟨before, last, owned, kind, hplaces, hid, howned, hobstacle⟩ :=
    completeness_dissect rfl rfl (by decide) hresult
  have hcore : last.isCore = true := by
    rw [Placement.isCore, hid, HeaderKind.isCore_id]
  have hsplit : [⟨HeaderKind.ethernet.id, 0, 14⟩] ++ ⟨HeaderKind.ipv6.id, 14, 48⟩ ::
      [⟨ExtensionHeader.hopByHop.id, 54, 8⟩, ⟨HopByHopOption.padN.id, 56, 6⟩] =
        before ++ last :: owned := hrecorded.symm.trans hplaces
  obtain ⟨rfl, rfl⟩ := last_header_unique hsplit (by decide) hcore (by decide) howned
  cases HeaderKind.id_inj.mp hid
  exact ⟨hnames, hobstacle _ .udp rfl hnames⟩

end Dissector

end Dissection

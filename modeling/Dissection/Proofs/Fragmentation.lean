import Dissection.Proofs.Fragments

namespace Dissection

/-- What a mark says of a fragment. -/
def Mark.fragment? : Mark → Option Fragment
  | .fragment told => some told
  | _ => none

def markedFragments (marks : List Mark) : List Fragment :=
  marks.filterMap Mark.fragment?

@[simp] theorem markedFragments_append (marks behind : List Mark) :
    markedFragments (marks ++ behind) = markedFragments marks ++ markedFragments behind :=
  List.filterMap_append

/-- What is said of the fragment that the first IP header among places belongs to. -/
def outermostFragments (frame : Bytes) (places : List Placement) : List Fragment :=
  match places.dropWhile fun place => !place.isIp with
  | [] => []
  | header :: behind => (fragmentsTold frame header behind).map Prod.snd

theorem Summary.fragment_addAll (summary : Summary) (marks : List Mark) :
    (summary.addAll marks).fragment =
      (markedFragments marks).foldl FragmentFlags.add summary.fragment := by
  induction marks generalizing summary with
  | nil => rfl
  | cons mark rest ih =>
      change ((summary.add mark).addAll rest).fragment = _
      rw [ih]
      cases mark <;> rfl

namespace FragmentFlags

theorem isFragment_add_none (fragment : Fragment) :
    (none.add fragment).isFragment = true ↔ fragment.more = true ∨ 0 < fragment.offset := by
  obtain ⟨more, offset⟩ := fragment
  by_cases hoffset : 0 < offset <;> cases more <;> simp [hoffset, add, none, isFragment]
  decide

theorem isLast_add_none (fragment : Fragment) :
    (none.add fragment).isLast = true ↔ fragment.more = false ∧ 0 < fragment.offset := by
  obtain ⟨more, offset⟩ := fragment
  by_cases hoffset : 0 < offset <;> cases more <;> simp [hoffset, add, none, isLast] <;> decide

end FragmentFlags

section Unsaid

variable {rest : Bytes} {expected next : Expected} {layer : Layer}

theorem lastFragment_eq_none {trailers : List Trailer}
    (h : ∀ trailer ∈ trailers, trailer.fragment = none) (count : Nat) :
    lastFragment trailers count = none := by
  induction trailers generalizing count with
  | nil => rfl
  | cons trailer rest ih =>
      rw [List.forall_mem_cons] at h
      cases count with
      | zero => rfl
      | succ count =>
          rw [lastFragment, ih h.2, h.1]
          rfl

theorem addressRecords_fragment (count : Nat) (rest : Bytes) :
    ∀ trailer ∈ addressRecords count rest, trailer.fragment = none := by
  refine (scans_scan addressRecordStep_advances count rest).forall_items ?_
  intro count rest trailer size next hmove
  unfold addressRecordStep at hmove
  split at hmove
  · cases hmove
  · split at hmove
    · injection hmove with hitem
      rw [← hitem]
    · cases hmove

theorem markedFragments_novellMarks (field : Nat) (payload : Bytes) :
    markedFragments (novellMarks field payload) = [] := by
  unfold novellMarks
  split <;> rfl

theorem markedFragments_framingMarks (field : Nat) (payload : Bytes) :
    markedFragments (framingMarks field payload) = [] := by
  unfold framingMarks
  split
  · rfl
  · exact markedFragments_novellMarks field payload

theorem Finds.unfragmented (h : Finds rest expected layer next)
    (hkind : layer.kind.isIp = false) :
    markedFragments layer.marks = [] ∧
      ∀ trailer ∈ layer.trailers.getD [], trailer.fragment = none := by
  induction h with
  | ipv4 _ _ _ _ _ | ipv6Cut _ _ _ _ | ipv6 _ _ _ _ => cases hkind
  | labelledIpv4 _ _ _ ih | labelledIpv6 _ _ _ ih | quotedIpv4 _ _ _ ih
  | quotedIpv6 _ _ _ ih => exact ih hkind
  | ethernet _ => exact ⟨markedFragments_framingMarks _ _, List.forall_mem_nil _⟩
  | vlan _ => exact ⟨markedFragments_novellMarks _ _, List.forall_mem_nil _⟩
  | icmp6Report _ => exact ⟨rfl, addressRecords_fragment _ _⟩
  | _ => exact ⟨rfl, List.forall_mem_nil _⟩

theorem Finds.markedFragments_shown (h : Finds rest expected layer next) {count : Nat}
    (hcount : expected.Behind count) (hinner : 0 < count ∨ layer.kind.isIp = false)
    (size : Nat) : markedFragments (layer.shown size) = [] := by
  unfold Layer.shown Layer.facts
  split
  · rfl
  · split
    · rename_i hdepth
      -- An IP header has as its depth the count of IP headers before it.
      have hkind : layer.kind.isIp = false := by
        rcases hinner with hpos | hkind
        · refine Bool.eq_false_iff.mpr fun hkind => ?_
          have hnested := ((h.behind hcount).2 (HeaderKind.nests_of_isIp hkind)).1
          rw [hkind, hdepth] at hnested
          change count + 1 = 1 at hnested
          omega
        · exact hkind
      obtain ⟨hmarks, htrailers⟩ := h.unfragmented hkind
      rw [markedFragments_append, hmarks, lastFragment_eq_none htrailers]
      rfl
    · rfl

end Unsaid

theorem Scans.markedFragments_shown {expected : Expected} {rest : Bytes}
    {found : Scanned Layer Ending} (h : Scans chainStep .silent expected rest found) {count : Nat}
    (hcount : expected.Behind count) (hpos : 0 < count) (size : Nat) :
    markedFragments (shown found.items size) = [] := by
  induction h generalizing count size with
  | stop _ => rfl
  | last hmove _ =>
      obtain ⟨_, hfinds⟩ := chainStep_eq_take_iff.mp hmove
      rw [shown, shown, List.append_nil]
      exact hfinds.markedFragments_shown hcount (.inl hpos) _
  | take hmove _ _ ih =>
      obtain ⟨_, hfinds⟩ := chainStep_eq_take_iff.mp hmove
      rw [Scanned.cons_items, shown, markedFragments_append,
        hfinds.markedFragments_shown hcount (.inl hpos),
        ih (hfinds.behind hcount).1 (Nat.add_pos_left hpos _)]
      rfl

section Outermost

variable {frame : Bytes} {captured start : Nat} {expected next : Expected} {layer : Layer}

theorem outermostFragments_of_not_isIp {places behind : List Placement}
    (h : ∀ place ∈ places, place.isIp = false) :
    outermostFragments frame (places ++ behind) = outermostFragments frame behind := by
  unfold outermostFragments
  rw [List.dropWhile_append_of_pos (by simpa using h)]

theorem outermostFragments_of_isIp {header : Placement} (h : header.isIp = true)
    (behind : List Placement) :
    outermostFragments frame (header :: behind) =
      (fragmentsTold frame header behind).map Prod.snd := by
  unfold outermostFragments
  rw [List.dropWhile_cons_of_neg (by simp [h])]

theorem shown_front {rest : List Layer} {parts behind : List Piece}
    (hparts : parts <+: layer.parts start) (hwhole : behind = [] ∨ parts = layer.parts start) :
    shown (layer :: rest) ((parts ++ behind).length + 1) =
      layer.shown (parts.length + 1) ++ shown rest behind.length := by
  have hsize := layer.length_pieces start
  have hle := hparts.length_le
  rw [Layer.pieces, List.length_cons] at hsize
  rw [shown, List.length_append]
  rcases hwhole with rfl | rfl
  · rw [List.length_nil, Nat.add_zero, Nat.min_eq_left (by omega), Nat.sub_eq_zero_of_le (by omega)]
  · have hbehind : (layer.parts start).length + behind.length + 1 - layer.size =
        behind.length := by omega
    rw [Nat.min_eq_right (by omega), hbehind, hsize.symm]

theorem Finds.markedFragments_outermost
    (h : Finds ((frame.take captured).drop start) expected layer next)
    (hcount : expected.Behind 0) (hkind : layer.kind.isIp = true) {parts : List Piece}
    (hparts : parts <+: layer.parts start) (length : Nat) {behind : List Placement}
    (hbehind : behind.takeWhile (fun place => !place.isCore) = parts.map Piece.place) :
    markedFragments (layer.shown (parts.length + 1)) =
      ((fragmentsTold frame ⟨layer.kind.id, start, length⟩ behind).map
        Prod.snd).getLast?.toList := by
  have hdepth : layer.depth = 0 := by
    have hnested := ((h.behind hcount).2 (HeaderKind.nests_of_isIp hkind)).1
    rw [hkind] at hnested
    exact (Nat.succ.inj hnested).symm
  rw [Layer.shown, if_neg (Nat.succ_ne_zero _), Layer.facts, if_pos hdepth, if_pos hdepth,
    markedFragments_append, List.getLast?_map, Nat.add_sub_cancel]
  rcases kind_of_isIp ((HeaderKind.isIp_place _ start length).trans hkind) rfl with hkind | hkind
  · obtain ⟨_, ⟨depth, rfl⟩, hfinds⟩ := h.readable .ipv4 hkind
    obtain ⟨fragment, htold, hmarks, htrailers, _⟩ := hfinds.told_ipv4 behind
    rw [htold, hmarks, htrailers]
    rfl
  · obtain ⟨_, ⟨depth, rfl⟩, hfinds⟩ := h.readable .ipv6 hkind
    obtain ⟨found, htold, hsays, hmarks, hmembers, htrailers, _⟩ :=
      hfinds.told_ipv6 hparts hbehind
    have hlast := hsays.last_eq
    rw [List.length_map] at hlast
    rw [htold, hlast, hmarks, hmembers, htrailers]
    change markedFragments ((lastFragment found.items parts.length).map Mark.fragment).toList = _
    cases lastFragment found.items parts.length <;> rfl

theorem Finds.markedFragments_front
    (h : Finds ((frame.take captured).drop start) expected layer next)
    (hcount : expected.Behind 0) {rest : List Layer} {front : List Piece}
    (hfront : front <+: layerPieces start (layer :: rest))
    (hinner : layer.kind.isIp = true → ∀ size, markedFragments (shown rest size) = [])
    (houter : layer.kind.isIp = false → ∀ behind, behind <+: layerPieces (start + layer.span) rest →
      markedFragments (shown rest behind.length) =
        (outermostFragments frame (widened behind)).getLast?.toList) :
    markedFragments (shown (layer :: rest) front.length) =
      (outermostFragments frame (widened front)).getLast?.toList := by
  rcases front_layerPieces_cases hfront with rfl | ⟨parts, behind, rfl, hparts, hbehind, hwhole⟩
  · rw [List.length_nil, shown_zero]
    rfl
  · have hplain : ∀ place ∈ parts.map Piece.place, place.isIp = false := fun place hplace =>
      Placement.isIp_of_not_core (h.shaped.isCore_parts hparts place hplace)
    have hisIp := layer.kind.isIp_place start (layer.length + trailed parts)
    rw [List.length_cons, shown_front hparts hwhole, markedFragments_append,
      widened_front _ hparts hbehind]
    cases hkind : layer.kind.isIp with
    | false =>
        rw [hkind] at hisIp
        rw [h.markedFragments_shown hcount (.inr hkind), houter hkind behind hbehind,
          ← List.cons_append,
          outermostFragments_of_not_isIp (List.forall_mem_cons.mpr ⟨hisIp, hplain⟩)]
        rfl
    | true =>
        rw [hkind] at hisIp
        let site : Site start := ⟨[], layer, rest, parts, behind, hparts, hbehind, hwhole⟩
        rw [hinner hkind, List.append_nil, outermostFragments_of_isIp hisIp,
          h.markedFragments_outermost hcount hkind hparts _ (site.takeWhile_after h.shaped)]
        rfl

/-- What is recorded of a chain shows what the last header to tell of the fragment of its
outermost IP header says. -/
theorem Scans.markedFragments_front {rest : Bytes} {found : Scanned Layer Ending}
    (h : Scans chainStep .silent expected rest found)
    (hrest : rest = (frame.take captured).drop start) (hcount : expected.Behind 0)
    {front : List Piece} (hfront : front <+: layerPieces start found.items) :
    markedFragments (shown found.items front.length) =
      (outermostFragments frame (widened front)).getLast?.toList := by
  induction h generalizing start front with
  | stop _ =>
      rw [List.prefix_nil.mp hfront]
      rfl
  | last hmove _ =>
      obtain ⟨_, hfinds⟩ := chainStep_eq_take_iff.mp hmove
      subst hrest
      refine hfinds.markedFragments_front hcount hfront (fun _ _ => rfl) fun _ behind hbehind => ?_
      rw [List.prefix_nil.mp hbehind]
      rfl
  | take hmove _ hbehind ih =>
      obtain ⟨rfl, hfinds⟩ := chainStep_eq_take_iff.mp hmove
      subst hrest
      have hnext := (hfinds.behind hcount).1
      -- Behind an IP header all are nested; behind any other, the outermost is still to come.
      refine hfinds.markedFragments_front hcount hfront (fun hkind => ?_) fun hkind behind => ?_
      · rw [hkind] at hnext
        exact hbehind.markedFragments_shown hnext (by decide)
      · rw [hkind] at hnext
        exact ih (List.drop_drop ..) hnext

theorem offset_dropLast_told {found : Scanned Layer Ending}
    (h : Scans chainStep .silent expected (frame.take captured) found) {front : List Piece}
    (hfront : front <+: layerPieces 0 found.items) {before behind : List Placement}
    {header : Placement} (hplaces : widened front = before ++ header :: behind)
    (hip : header.isIp = true) :
    ∀ one ∈ (fragmentsTold frame header behind).dropLast, one.2.offset = 0 := by
  obtain ⟨site, announced, next, rfl, rfl, _, hfinds, _⟩ :=
    h.exists_site hfront hplaces (Placement.isCore_of_isIp hip)
  rcases kind_of_isIp hip rfl with hkind | hkind
  · obtain ⟨_, ⟨depth, rfl⟩, hfinds⟩ := hfinds.readable .ipv4 hkind
    obtain ⟨fragment, htold, _⟩ := hfinds.told_ipv4 site.after
    rw [Site.place, htold]
    exact List.forall_mem_nil _
  · have htakes := Site.takeWhile_after hfinds.shaped
    obtain ⟨_, ⟨depth, rfl⟩, hfinds⟩ := hfinds.readable .ipv6 hkind
    obtain ⟨trailing, htold, hsays, _⟩ := hfinds.told_ipv6 site.parts_front htakes
    rw [Site.place, htold]
    exact hsays.first

theorem offset_dropLast_outermost {found : Scanned Layer Ending}
    (h : Scans chainStep .silent expected (frame.take captured) found) {front : List Piece}
    (hfront : front <+: layerPieces 0 found.items) :
    ∀ fragment ∈ (outermostFragments frame (widened front)).dropLast, fragment.offset = 0 := by
  unfold outermostFragments
  split
  · exact List.forall_mem_nil _
  · rename_i header behind hdrop
    have hip : header.isIp = true := by
      have hhead := List.head?_dropWhile_not (fun place : Placement => !place.isIp) (widened front)
      rw [hdrop] at hhead
      simpa using hhead
    have hplaces := List.takeWhile_append_dropWhile
      (p := fun place : Placement => !place.isIp) (l := widened front)
    rw [hdrop] at hplaces
    rw [← List.map_dropLast]
    intro fragment hfragment
    obtain ⟨one, hone, rfl⟩ := List.mem_map.mp hfragment
    exact offset_dropLast_told h hfront hplaces.symm hip one hone

end Outermost

/-- The fragment flags of a packet, from what is said of the fragment of its outermost IP
header. Where several Fragment headers say it, only the last counts. -/
structure FragmentFlags.Tells (flags : FragmentFlags) (said : List Fragment) : Prop where
  isFragment_iff : flags.isFragment = true ↔
    ∃ fragment, said.getLast? = some fragment ∧ (fragment.more = true ∨ 0 < fragment.offset)
  isLast_iff : flags.isLast = true ↔
    ∃ fragment ∈ said, fragment.more = false ∧ 0 < fragment.offset
  /-- Those before the last are all of the first fragment. -/
  first : ∀ fragment ∈ said.dropLast, fragment.offset = 0

theorem FragmentFlags.tells_foldl {said : List Fragment}
    (h : ∀ fragment ∈ said.dropLast, fragment.offset = 0) :
    (said.getLast?.toList.foldl add none).Tells said := by
  rcases List.eq_nil_or_concat said with rfl | ⟨init, last, rfl⟩
  · exact ⟨by simp [none, isFragment], by simp [none, isLast], h⟩
  · rw [List.concat_eq_append, List.dropLast_concat] at h
    rw [List.concat_eq_append, List.getLast?_concat]
    refine ⟨?_, ?_, ?_⟩
    · rw [List.getLast?_concat]
      simpa using isFragment_add_none last
    · refine (isLast_add_none last).trans ⟨fun hlast => ⟨last, by simp, hlast⟩, ?_⟩
      rintro ⟨fragment, hfragment, hlast⟩
      rcases List.mem_append.mp hfragment with hinit | hmem
      · rw [h fragment hinit] at hlast
        exact absurd hlast.2 (Nat.lt_irrefl 0)
      · exact List.mem_singleton.mp hmem ▸ hlast
    · rwa [List.dropLast_concat]

namespace Dissector

/-- The fragment flags of every packet tell what the bytes say of the fragment of its
outermost IP header, whatever is nested in it. -/
theorem fragmentation_dissect {dissector : Dissector} {frame : Bytes} {timestamp : UInt64}
    {captured wire count : Nat} (hextension : dissector.extension = none)
    (h : (dissector.dissect frame timestamp captured wire).result = .ok count) :
    let outcome := dissector.dissect frame timestamp captured wire
    outcome.dissector.packet.summary.fragment.Tells
      (outermostFragments frame outcome.dissector.table.places) := by
  intro outcome
  obtain ⟨_, hcaptured⟩ := captured?_of_dissect h
  have hlimit := (captured?_eq_ok_iff.mp hcaptured).2.1
  have hplaces : outcome.dissector.table.places = _ := places_dissect timestamp hextension hcaptured
  have hpacket : outcome.dissector.packet = _ := packet_dissect timestamp hextension hcaptured
  have hclosed := chain_closed (.ethernet dissector.settings.datalink) (frame.take captured)
  have hscans := scans_frameChain dissector.settings.datalink (frame.take captured)
  have hfront := accepted_front RecordTable.capacity captured
    (framePieces dissector.settings.datalink (frame.take captured))
  have hsummary := summary_recordLayers (regular_empty dissector.settings.defaultMask hlimit)
    .blank 0 hclosed
  have hshown := hscans.markedFragments_front (List.drop_zero ..).symm rfl hfront
  have hflags : outcome.dissector.packet.summary.fragment =
      (outermostFragments frame outcome.dissector.table.places).getLast?.toList.foldl
        FragmentFlags.add .none := by
    rw [hpacket, recorded, hplaces, ← hshown]
    exact (congrArg Summary.fragment hsummary).trans (Summary.fragment_addAll _ _)
  rw [hflags]
  refine FragmentFlags.tells_foldl ?_
  rw [hplaces]
  exact offset_dropLast_outermost hscans hfront

theorem tells_laterFragmentFrame :
    let outcome := (new .default).dissect laterFragmentFrame 0 70 70
    outcome.result = .ok 70 ∧
      outermostFragments laterFragmentFrame outcome.dissector.table.places = [⟨false, 100⟩] ∧
      outcome.dissector.packet.summary.fragment.Tells
        (outermostFragments laterFragmentFrame outcome.dissector.table.places) := by
  intro outcome
  have hresult : outcome.result = .ok 70 := by decide
  exact ⟨hresult, by decide, fragmentation_dissect rfl hresult⟩

/-- A frame with two Fragment headers in an IPv6 packet, of which only the first says that
more fragments follow. -/
def twiceFragmentedFrame : Bytes :=
  List.replicate 12 0 ++ [0x86, 0xDD, 0x60, 0, 0, 0, 0, 16, 44, 64] ++ List.replicate 32 0 ++
    [44, 0, 0, 1, 0, 0, 0, 1] ++ [59, 0, 0, 0, 0, 0, 0, 1]

/-- What the first of two Fragment headers says is lost. -/
theorem isFragment_twiceFragmentedFrame :
    let outcome := (new .default).dissect twiceFragmentedFrame 0 70 70
    outcome.result = .ok 70 ∧
      (∃ fragment ∈ outermostFragments twiceFragmentedFrame outcome.dissector.table.places,
        fragment.more = true ∨ 0 < fragment.offset) ∧
      outcome.dissector.packet.summary.fragment.isFragment = false := by
  decide

end Dissector

end Dissection

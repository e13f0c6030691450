import Dissection.Proofs.Consultation
import Dissection.Proofs.Location
import Dissection.Proofs.Nesting
import Dissection.Proofs.Showing

namespace Dissection

open Bytes

/-- What a Fragment header recorded at a place says, with the place. -/
def Placement.fragment? (frame : Bytes) (place : Placement) : Option (Placement × Fragment) :=
  if place.id = ExtensionHeader.fragment.id then
    (u16? frame (place.offset + 2)).map fun word => (place, .ofIpv6 word)
  else none

def fragmentHeaders (frame : Bytes) (places : List Placement) : List (Placement × Fragment) :=
  places.filterMap (Placement.fragment? frame)

/-- What is said of the fragment that an IP header belongs to, each time with the place of
the header that says it: an IPv4 header says it itself, and for an IPv6 header it is said
by the Fragment headers behind it, up to the next header. -/
def fragmentsTold (frame : Bytes) (header : Placement) (behind : List Placement) :
    List (Placement × Fragment) :=
  if header.id = HeaderKind.ipv4.id then
    ((u16? frame (header.offset + 6)).map fun word => (header, .ofIpv4 word)).toList
  else if header.id = HeaderKind.ipv6.id then
    fragmentHeaders frame (behind.takeWhile fun place => !place.isCore)
  else []

theorem Tiled.stop_getLast? {start stop : Nat} {places : List Placement} {last : Placement}
    (h : Tiled start stop places) (hlast : places.getLast? = some last) : last.stop = stop := by
  induction places generalizing start with
  | nil => cases hlast
  | cons place rest ih =>
      obtain ⟨_, hrest⟩ := h
      cases rest with
      | nil =>
          cases hlast
          exact hrest
      | cons next others => exact ih hrest (by simpa using hlast)

section Trailing

variable {frame : Bytes} {captured : Nat}

theorem fragmentHeaders_eq_nil {places : List Placement}
    (h : ∀ place ∈ places, place.isExtension = false) : fragmentHeaders frame places = [] := by
  rw [fragmentHeaders, List.filterMap_eq_nil_iff]
  intro place hplace
  have hother : place.id ≠ ExtensionHeader.fragment.id := by
    intro hid
    have hextension := h place hplace
    rw [Placement.isExtension, hid, ProtocolId.isExtension_id] at hextension
    cases hextension
  rw [Placement.fragment?, if_neg hother]

theorem fragmentHeaders_group {place : Placement} {fragment : Option Fragment}
    {owned : List Placement} (hread : place.fragment? frame = fragment.map (place, ·))
    (hplain : ∀ place ∈ owned, place.isExtension = false) (rest : List Placement) :
    fragmentHeaders frame (place :: (owned ++ rest)) =
      (fragment.map (place, ·)).toList ++ fragmentHeaders frame rest := by
  rw [fragmentHeaders, List.filterMap_cons, List.filterMap_append, ← fragmentHeaders,
    ← fragmentHeaders, fragmentHeaders_eq_nil hplain, hread]
  cases fragment <;> rfl

theorem extensionTrailer_fragment {header : ExtensionHeader} {start : Nat} {trailer : Trailer}
    {next : Option Nat}
    (h : extensionTrailer header ((frame.take captured).drop start) = some (trailer, next)) :
    Placement.fragment? frame ⟨trailer.id, start, trailer.length⟩ =
        trailer.fragment.map (⟨trailer.id, start, trailer.length⟩, ·) ∧
      ∀ fragment, trailer.fragment = some fragment → 0 < fragment.offset → next = none := by
  cases header with
  | fragment =>
      simp only [extensionTrailer, Option.bind_eq_bind, Option.bind_eq_some_iff,
        Option.some.injEq, Prod.mk.injEq] at h
      obtain ⟨_, _, word, hword, rfl, rfl⟩ := h
      refine ⟨?_, ?_⟩
      · rw [Placement.fragment?, if_pos rfl, u16?_of_captured hword]
        rfl
      · rintro fragment ⟨⟩ hoffset
        exact if_pos hoffset
  | encapsulatingSecurityPayload =>
      simp only [extensionTrailer, Option.some.injEq, Prod.mk.injEq] at h
      obtain ⟨rfl, _⟩ := h
      refine ⟨if_neg (by dsimp only; decide), ?_⟩
      intro fragment hfragment
      cases hfragment
  | _ =>
      simp only [extensionTrailer, Option.bind_eq_bind, Option.bind_eq_some_iff,
        Option.some.injEq, Prod.mk.injEq] at h
      obtain ⟨_, _, _, _, rfl, _⟩ := h
      refine ⟨if_neg (by dsimp only; decide), ?_⟩
      intro fragment hfragment
      cases hfragment

/-- What the Fragment headers among recorded pieces of the extension headers found say: the
last of them is the one that is gone by, and only it may be of a fragment other than the
first, as no extension header is then behind it. -/
structure SaysFragments (frame : Bytes) (found : Scanned Trailer (Option Nat))
    (places : List Placement) : Prop where
  last_eq : (fragmentHeaders frame places).getLast?.map Prod.snd =
    lastFragment found.items places.length
  first : ∀ one ∈ (fragmentHeaders frame places).dropLast, one.2.offset = 0
  later : ∀ one ∈ fragmentHeaders frame places, 0 < one.2.offset →
    (places.filter Placement.isExtension).getLast? = some one.1 ∧ found.verdict = none

theorem saysFragments_nil (found : Scanned Trailer (Option Nat)) :
    SaysFragments frame found [] := by
  refine ⟨?_, List.forall_mem_nil _, List.forall_mem_nil _⟩
  cases found.items <;> rfl

theorem lastFragment_append {members : Members} {offset : Nat} {front others : List Piece}
    (hfront : front <+: members.pieces offset)
    (hwhole : others = [] ∨ front = members.pieces offset) (trailers : List Trailer) :
    lastFragment trailers (front.length + others.length - members.size) =
      lastFragment trailers others.length := by
  rcases hwhole with rfl | rfl
  · have hle := hfront.length_le
    rw [members.length_pieces] at hle
    rw [List.length_nil, Nat.add_zero, Nat.sub_eq_zero_of_le hle]
  · rw [members.length_pieces, Nat.add_sub_cancel_left]

theorem SaysFragments.cons {start : Nat} {header : ExtensionHeader} {trailer : Trailer}
    {next : Option Nat} {behind : Scanned Trailer (Option Nat)} {front others : List Piece}
    (htrailer : extensionTrailer header ((frame.take captured).drop start) = some (trailer, next))
    (hnext : next = none → behind = ⟨[], none⟩)
    (hfront : front <+: trailer.members.pieces start)
    (hothers : others <+: trailerPieces (start + trailer.length) behind.items)
    (hwhole : others = [] ∨ front = trailer.members.pieces start)
    (h : SaysFragments frame behind (others.map Piece.place)) :
    SaysFragments frame (behind.cons trailer) (⟨trailer.id, start, trailer.length⟩ ::
      (front.map Piece.place ++ others.map Piece.place)) := by
  have hextension := extensionTrailer_isExtension htrailer
  obtain ⟨hread, hclosed⟩ := extensionTrailer_fragment htrailer
  have hplain := (hextension.owned hfront).1
  have hcount := lastFragment_append hfront hwhole behind.items
  generalize hplace : (⟨trailer.id, start, trailer.length⟩ : Placement) = place at *
  have hsaid := fragmentHeaders_group hread hplain (others.map Piece.place)
  have hextensions := filter_group (hplace ▸ hextension.isExtension_place start) hplain
    (others.map Piece.place)
  -- A header of a fragment other than the first is the last: nothing is found behind it.
  have hhead : ∀ fragment, trailer.fragment = some fragment → 0 < fragment.offset →
      others = [] ∧ behind.verdict = none := by
    intro fragment hfragment hoffset
    rw [hnext (hclosed fragment hfragment hoffset)] at hothers ⊢
    exact ⟨List.prefix_nil.mp hothers, rfl⟩
  refine ⟨?_, ?_, ?_⟩
  · rw [hsaid, List.getLast?_append, Option.map_or, h.last_eq, List.length_cons,
      List.length_append, List.length_map, List.length_map, Scanned.cons_items, lastFragment,
      hcount]
    cases lastFragment behind.items others.length <;> cases trailer.fragment <;> rfl
  · rw [hsaid]
    cases hfragment : trailer.fragment with
    | none => exact h.first
    | some fragment =>
        cases hmore : fragmentHeaders frame (others.map Piece.place) with
        | nil => exact List.forall_mem_nil _
        | cons one more =>
            have hzero : fragment.offset = 0 := by
              refine Nat.eq_zero_of_not_pos fun hoffset => ?_
              rw [(hhead fragment hfragment hoffset).1] at hmore
              cases hmore
            have hfirst := h.first
            rw [hmore] at hfirst
            exact List.forall_mem_cons.mpr ⟨hzero, hfirst⟩
  · rw [hsaid, hextensions, List.forall_mem_append]
    refine ⟨?_, ?_⟩
    · intro one hone hoffset
      obtain ⟨fragment, hfragment, rfl⟩ := Option.map_eq_some_iff.mp (Option.mem_toList.mp hone)
      obtain ⟨rfl, hverdict⟩ := hhead fragment hfragment hoffset
      exact ⟨rfl, hverdict⟩
    · intro one hone hoffset
      obtain ⟨hlast, hverdict⟩ := h.later one hone hoffset
      rw [List.getLast?_cons, hlast]
      exact ⟨rfl, hverdict⟩

theorem SaysFragments.of_front {start : Nat} {header : ExtensionHeader} {trailer : Trailer}
    {next : Option Nat} {behind : Scanned Trailer (Option Nat)} {front : List Piece}
    (htrailer : extensionTrailer header ((frame.take captured).drop start) = some (trailer, next))
    (hnext : next = none → behind = ⟨[], none⟩)
    (hfront : front <+: trailerPieces start (behind.cons trailer).items)
    (h : ∀ others, others <+: trailerPieces (start + trailer.length) behind.items →
      SaysFragments frame behind (others.map Piece.place)) :
    SaysFragments frame (behind.cons trailer) (front.map Piece.place) := by
  cases front with
  | nil => exact saysFragments_nil _
  | cons piece rest =>
      obtain ⟨rfl, hrest⟩ := List.cons_prefix_cons.mp hfront
      obtain ⟨members, others, rfl, hmembers, hothers, hwhole⟩ := prefix_append_split hrest
      rw [List.map_cons, List.map_append]
      exact .cons htrailer hnext hmembers hothers hwhole (h others hothers)

theorem Scans.saysFragments {state : Option Nat} {rest : Bytes}
    {found : Scanned Trailer (Option Nat)} (h : Scans extensionStep none state rest found)
    {start : Nat} (hrest : rest = (frame.take captured).drop start) {front : List Piece}
    (hfront : front <+: trailerPieces start found.items) :
    SaysFragments frame found (front.map Piece.place) := by
  induction h generalizing start front with
  | stop _ =>
      rw [List.prefix_nil.mp hfront]
      exact saysFragments_nil _
  | last hmove _ =>
      obtain ⟨_, _, _, _, htrailer, rfl⟩ := extensionStep_take hmove
      subst hrest
      exact .of_front htrailer (fun _ => rfl) hfront
        fun others hothers => List.prefix_nil.mp hothers ▸ saysFragments_nil _
  | @take state next rest trailer size found hmove _ hbehind ih =>
      obtain ⟨_, _, _, _, htrailer, rfl⟩ := extensionStep_take hmove
      subst hrest
      refine .of_front htrailer ?_ hfront fun others hothers => ih (List.drop_drop ..) hothers
      rintro rfl
      cases hbehind with
      | stop hstop =>
          cases hstop
          rfl
      | last htake _ => cases htake
      | take htake _ _ => cases htake

end Trailing

section Told

variable {frame bytes : Bytes} {captured depth length : Nat} {next : Expected} {layer : Layer}

theorem isIp_of_told {header : Placement} {behind : List Placement} {one : Placement × Fragment}
    (h : one ∈ fragmentsTold frame header behind) : header.isIp = true := by
  unfold fragmentsTold at h
  split at h
  · rename_i hid
    simp [Placement.isIp, hid]
  · split at h
    · rename_i hid
      simp [Placement.isIp, hid]
    · cases h

theorem kind_of_isIp {place : Placement} {kind : HeaderKind} (h : place.isIp = true)
    (hid : place.id = kind.id) : kind = .ipv4 ∨ kind = .ipv6 := by
  simpa [Placement.isIp, hid] using h

theorem Placement.isCore_of_isIp {place : Placement} (h : place.isIp = true) :
    place.isCore = true := by
  by_contra hcore
  rw [Placement.isIp_of_not_core (Bool.eq_false_iff.mpr hcore)] at h
  cases h

theorem Finds.told_ipv4 {start : Nat}
    (h : Finds ((frame.take captured).drop start) (.ipv4 depth) layer next)
    (behind : List Placement) :
    ∃ fragment, fragmentsTold frame ⟨layer.kind.id, start, length⟩ behind =
        [(⟨layer.kind.id, start, length⟩, fragment)] ∧
      layer.marks = [.network .ipv4, .fragment fragment] ∧ layer.trailers = none ∧
        (0 < fragment.offset → next = .nothing .silent) := by
  cases h with
  | @ipv4 _ _ word _ _ _ _ hword _ =>
      refine ⟨.ofIpv4 word, ?_, rfl, rfl, ?_⟩
      · rw [fragmentsTold, if_pos rfl, u16?_of_captured hword]
        rfl
      · intro hoffset
        exact if_pos hoffset

/-- What fragment an IPv6 header belongs to is said by the Fragment headers among its
extension headers that are recorded. -/
theorem Finds.told_ipv6 {start : Nat}
    (h : Finds ((frame.take captured).drop start) (.ipv6 depth) layer next)
    {parts : List Piece} (hparts : parts <+: layer.parts start) {behind : List Placement}
    (hbehind : behind.takeWhile (fun place => !place.isCore) = parts.map Piece.place) :
    ∃ found : Scanned Trailer (Option Nat),
      fragmentsTold frame ⟨layer.kind.id, start, length⟩ behind =
          fragmentHeaders frame (parts.map Piece.place) ∧
        SaysFragments frame found (parts.map Piece.place) ∧
          layer.marks = [.network .ipv6] ∧ layer.members = .none ∧
            layer.trailers = some found.items ∧
              (found.verdict = none → next = .nothing .silent) := by
  have htold : fragmentsTold frame ⟨HeaderKind.ipv6.id, start, length⟩ behind =
      fragmentHeaders frame (parts.map Piece.place) := by
    rw [fragmentsTold, if_neg (by simp), if_pos rfl, hbehind]
  cases h with
  | ipv6Cut _ _ _ hverdict =>
      have hsays := (scans_scan extensionStep_advances _ _).saysFragments (List.drop_drop ..) hparts
      exact ⟨_, htold, hsays, rfl, rfl, rfl, fun _ => rfl⟩
  | ipv6 _ _ _ hverdict =>
      have hsays := (scans_scan extensionStep_advances _ _).saysFragments (List.drop_drop ..) hparts
      refine ⟨_, htold, hsays, rfl, rfl, rfl, ?_⟩
      intro hnone
      cases hverdict.symm.trans hnone

end Told

/-- How the records of a capture of `limit` bytes end with an IP header that belongs to a
fragment other than the first, as the header at `teller` says. -/
structure EndsInFragment (limit : Nat) (header teller : Placement) (behind : List Placement) :
    Prop where
  /-- No other header is behind it. -/
  last : ∀ place ∈ behind, place.isCore = false
  /-- What is behind it is its own. -/
  owned : Owned limit header behind
  /-- Of an IPv6 header, the last extension header says so and is where the header ends. -/
  teller : header.id = HeaderKind.ipv6.id →
    (behind.filter Placement.isExtension).getLast? = some teller ∧ teller.stop = header.stop

theorem endsInFragment_of_front {frame : Bytes} {captured : Nat} {found : Scanned Layer Ending}
    {expected : Expected} (h : Scans chainStep .silent expected (frame.take captured) found)
    {front : List Piece} (hfront : front <+: layerPieces 0 found.items) {limit : Nat}
    (hlimit : ∀ piece ∈ front, piece.place.stop ≤ limit)
    {before behind : List Placement} {header : Placement}
    (hplaces : widened front = before ++ header :: behind) {one : Placement × Fragment}
    (hone : one ∈ fragmentsTold frame header behind) (hoffset : 0 < one.2.offset) :
    EndsInFragment limit header one.1 behind ∧ found.verdict = .silent := by
  obtain ⟨site, announced, next, rfl, rfl, hsuffix, hfinds, hrest⟩ :=
    h.exists_site hfront hplaces (Placement.isCore_of_isIp (isIp_of_told hone))
  have hlayer := hfinds.shaped
  have htakes := Site.takeWhile_after hlayer
  have howns := hlayer.owns site.parts_front fun piece hpiece =>
    hlimit piece (hsuffix.subset (by simp [Site.pieces, hpiece]))
  -- What tells of such a fragment has nothing expected behind the header.
  have hclosed : next = .nothing .silent ∧ (site.layer.kind = .ipv6 →
      (site.owned.filter Placement.isExtension).getLast? = some one.1) := by
    rcases kind_of_isIp (isIp_of_told hone) rfl with hkind | hkind
    · obtain ⟨_, ⟨depth, rfl⟩, hfinds⟩ := hfinds.readable .ipv4 hkind
      obtain ⟨fragment, htold, _, _, hnext⟩ := hfinds.told_ipv4 site.after
      rw [Site.place, htold, List.mem_singleton] at hone
      subst hone
      exact ⟨hnext hoffset, fun hother => by simp [hkind] at hother⟩
    · obtain ⟨_, ⟨depth, rfl⟩, hfinds⟩ := hfinds.readable .ipv6 hkind
      obtain ⟨trailing, htold, hsays, _, _, _, hnext⟩ := hfinds.told_ipv6 site.parts_front htakes
      rw [Site.place, htold] at hone
      obtain ⟨hlast, hverdict⟩ := hsays.later one hone hoffset
      exact ⟨hnext hverdict, fun _ => hlast⟩
  obtain ⟨rfl, hteller⟩ := hclosed
  have hend : site.rest = [] ∧ found.verdict = .silent := by
    rcases hrest with hcut | hscans
    · exact hcut
    · exact Scanned.mk.inj hscans.of_nothing
  have hbehind : site.behind = [] := by
    have hprefix := site.behind_front
    rw [hend.1] at hprefix
    exact List.prefix_nil.mp hprefix
  have hafter : site.after = site.owned := by
    rw [Site.after, hbehind]
    exact List.append_nil _
  rw [hafter]
  refine ⟨⟨Site.isCore_owned hlayer, ⟨site.layer.kind, rfl, howns⟩, ?_⟩, hend.2⟩
  intro hid
  have hkind := HeaderKind.id_inj.mp hid
  rw [hkind] at howns
  exact ⟨hteller hkind, howns.1.stop_getLast? (hteller hkind)⟩

namespace Dissector

theorem silent_dissect {dissector : Dissector} {frame bytes : Bytes} {captured wire : Nat}
    (timestamp : UInt64) (h : dissector.captured? frame captured wire = .ok bytes)
    (hverdict : (frameChain dissector.settings.datalink bytes).verdict = .silent) :
    (dissector.dissect frame timestamp captured wire).dissector.table =
        ({ dissector with extension := none }.dissect frame timestamp captured
          wire).dissector.table ∧
      consultations (dissector.dissect frame timestamp captured wire).events = [] := by
  obtain ⟨progress, ending, hchain⟩ : ∃ progress ending,
      recordChain (.empty captured dissector.settings.defaultMask) .blank bytes 0
        (.ethernet dissector.settings.datalink) = (progress, ending) := ⟨_, _, rfl⟩
  have hunasked := RecordTable.consultations_recordLayers
    (.empty captured dissector.settings.defaultMask) 0 .blank
    (chain (.ethernet dissector.settings.datalink) (bytes.drop 0)).items
  obtain ⟨hprogress, hending⟩ := Prod.mk.inj hchain
  have hsilent : ending = .silent := by
    rw [← hending, List.drop_zero, ← frameChain, hverdict, ite_self]
  rw [hprogress] at hunasked
  subst hsilent
  rw [dissect_eq_concluded dissector timestamp h hchain,
    dissect_eq_concluded { dissector with extension := none } timestamp h hchain]
  refine ⟨rfl, ?_⟩
  rw [concluded, consultations_append, hunasked]
  rfl

/-- Nothing is dissected behind a fragment other than the first. Of every packet, with any
extension or none, an IP header that says it belongs to one is the last header recorded,
with nothing but its own options or extension headers behind it, and no extension is
consulted. -/
theorem nothing_behind_dissect {dissector : Dissector} {frame : Bytes} {timestamp : UInt64}
    {captured wire count : Nat}
    (h : (dissector.dissect frame timestamp captured wire).result = .ok count)
    {before behind : List Placement} {header : Placement}
    (hplaces : ({ dissector with extension := none }.dissect frame timestamp captured
      wire).dissector.table.places = before ++ header :: behind)
    {one : Placement × Fragment} (hone : one ∈ fragmentsTold frame header behind)
    (hoffset : 0 < one.2.offset) :
    EndsInFragment captured header one.1 behind ∧
      (dissector.dissect frame timestamp captured wire).dissector.table.places =
          before ++ header :: behind ∧
        consultations (dissector.dissect frame timestamp captured wire).events = [] := by
  obtain ⟨_, hcaptured⟩ := captured?_of_dissect h
  have hplain : ({ dissector with extension := none } : Dissector).captured? frame captured wire =
      .ok (frame.take captured) := hcaptured
  have hpieces := hplaces
  rw [places_dissect timestamp rfl hplain] at hpieces
  have hscans := scans_frameChain dissector.settings.datalink (frame.take captured)
  obtain ⟨hends, hverdict⟩ := endsInFragment_of_front hscans (accepted_front _ _ _)
    (fun piece => stop_le_of_mem_accepted) hpieces hone hoffset
  obtain ⟨htable, hunasked⟩ := silent_dissect timestamp hcaptured hverdict
  exact ⟨hends, by rw [htable, hplaces], hunasked⟩

/-- A frame with a fragment other than the first in an IPv6 packet, of which the bytes look
like a Destination Options header. -/
def laterFragmentFrame : Bytes :=
  List.replicate 12 0 ++ [0x86, 0xDD, 0x60, 0, 0, 0, 0, 16, 44, 64] ++ List.replicate 32 0 ++
    [60, 0, 3, 32, 0, 0, 0, 1] ++ List.replicate 8 0

theorem endsInFragment_laterFragmentFrame :
    let dissector := (new .default).setExtension .idle
    let outcome := dissector.dissect laterFragmentFrame 0 70 70
    outcome.result = .ok 70 ∧
      (⟨ExtensionHeader.fragment.id, 54, 8⟩, ⟨false, 100⟩) ∈
        fragmentsTold laterFragmentFrame ⟨HeaderKind.ipv6.id, 14, 48⟩
          [⟨ExtensionHeader.fragment.id, 54, 8⟩] ∧
      EndsInFragment 70 ⟨HeaderKind.ipv6.id, 14, 48⟩ ⟨ExtensionHeader.fragment.id, 54, 8⟩
        [⟨ExtensionHeader.fragment.id, 54, 8⟩] ∧
      outcome.dissector.table.places = [⟨HeaderKind.ethernet.id, 0, 14⟩] ++
        ⟨HeaderKind.ipv6.id, 14, 48⟩ :: [⟨ExtensionHeader.fragment.id, 54, 8⟩] ∧
      consultations outcome.events = [] := by
  intro dissector outcome
  have hresult : outcome.result = .ok 70 := by decide
  have htold : (⟨ExtensionHeader.fragment.id, 54, 8⟩, ⟨false, 100⟩) ∈
      fragmentsTold laterFragmentFrame ⟨HeaderKind.ipv6.id, 14, 48⟩
        [⟨ExtensionHeader.fragment.id, 54, 8⟩] := by decide
  have hplaces : ({ dissector with extension := none }.dissect laterFragmentFrame 0 70
      70).dissector.table.places = [⟨HeaderKind.ethernet.id, 0, 14⟩] ++
        ⟨HeaderKind.ipv6.id, 14, 48⟩ :: [⟨ExtensionHeader.fragment.id, 54, 8⟩] := by decide
  exact ⟨hresult, htold, nothing_behind_dissect hresult hplaces htold (by decide)⟩

end Dissector

end Dissection

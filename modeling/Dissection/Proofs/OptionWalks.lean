import Dissection.Proofs.CommonFront
import Dissection.Proofs.Listing

namespace Dissection

open Bytes

/-- The options that end by `stop`, with lengths that are told by their kinds and by the byte
behind them. An option of a kind that closes the list is the last. -/
def Listing.region (view : Bytes) (stop : Nat) (length? : Nat → Option Nat → Option Nat)
    (closes : Nat → Bool) : Listing :=
  .ofLengths view stop (fun kind offset => length? kind (u8? view (offset + 1)))
    fun entries => ∃ last ∈ entries.getLast?, closes last.kind = true

/-- The length of an IPv4 or TCP option. Kinds 0 and 1 are one byte long, every other kind gives
its length, of two bytes at least, in the byte behind it. -/
def optionLength? (kind : Nat) (behind : Option Nat) : Option Nat :=
  if kind ≤ 1 then some 1 else behind.filter (2 ≤ ·)

/-- The length of a Hop-by-Hop option. Type 0 is one byte long, every other type gives the count of
bytes behind its length byte. -/
def hopByHopLength? (type : Nat) (behind : Option Nat) : Option Nat :=
  if type = 0 then some 1 else behind.map (2 + ·)

/-- The IPv4 or TCP options that end by `stop`, none of them behind one of kind 0. -/
def Listing.options (view : Bytes) (stop : Nat) : Listing :=
  .region view stop optionLength? (· = 0)

def Listing.hopByHop (view : Bytes) (stop : Nat) : Listing :=
  .region view stop hopByHopLength? fun _ => false

/-- The Neighbor-Discovery options that are captured whole. Behind its type, an option gives its
length in units of eight bytes, of which there is at least one. -/
def Listing.discovery (view : Bytes) : Listing :=
  .ofLengths view view.length
    (fun _ offset => ((u8? view (offset + 1)).filter (0 < ·)).map (· * 8)) fun _ => False

def Laid.entry (recognize : Nat → Option ProtocolId) (note : Nat → Note) (laid : Laid) : Entry :=
  .ofId? laid.length (recognize laid.kind) (note laid.kind)

theorem asks_entryPieces (recognize : Nat → Option ProtocolId) (note : Nat → Note) :
    Asks entryPieces (Laid.entry recognize note) Entry.length recognize := by
  constructor
  · exact fun _ => rfl
  · exact fun offset entries last => entryPieces_append offset entries [last]
  · exact fun _ => rfl
  · intro laid
    unfold Laid.place? Laid.entry Entry.ofId?
    cases hid : recognize laid.kind <;> simp [entryPieces]
  · intro offset last piece hpiece
    rw [entryPieces] at hpiece
    split at hpiece
    · cases hpiece
    · cases hpiece
      rfl

/-- A step over a region, of which the state is what is left, takes the option that is read at the
front of the bytes, and ends where there is none or where it overruns the region. -/
structure Regional (length? : Nat → Option Nat → Option Nat) (closes : Nat → Bool)
    (step : Nat → Bytes → Move Nat Entry (Option Note)) (recognize : Nat → Option ProtocolId)
    (note : Nat → Note) : Prop where
  length_pos : ∀ {kind length : Nat} {behind : Option Nat},
    length? kind behind = some length → 0 < length
  stop : ∀ {region : Nat} {rest : Bytes} {verdict : Option Note},
    step region rest = .stop verdict → region ≠ 0 → ∀ kind length, u8? rest 0 = some kind →
      length? kind (u8? rest 1) = some length → region < length
  take : ∀ {region length next : Nat} {rest : Bytes} {found : Entry},
    step region rest = .take found length next → region ≠ 0 ∧
      ∃ kind, u8? rest 0 = some kind ∧ length? kind (u8? rest 1) = some length ∧
        length ≤ region ∧ found = .ofId? length (recognize kind) (note kind) ∧
          next = if closes kind then 0 else region - length

/-- What is left of a region behind the entries read before: nothing if they are complete. -/
def Remains (listing : Listing) (start stop region : Nat) (entries : List Laid) : Prop :=
  (listing.Complete entries → region = 0) ∧
    (¬listing.Complete entries → start + total Laid.length entries + region = stop)

section Region

variable {view : Bytes} {start stop : Nat} {length? : Nat → Option Nat → Option Nat}
  {closes : Nat → Bool}

theorem complete_region_concat_iff (entries : List Laid) (last : Laid) :
    (Listing.region view stop length? closes).Complete (entries ++ [last]) ↔
      closes last.kind = true := by
  simp [Listing.region, Listing.ofLengths]

theorem remains_nil {region : Nat} (h : start + region = stop) :
    Remains (.region view stop length? closes) start stop region [] := by
  refine ⟨?_, fun _ => ?_⟩
  · rintro ⟨last, hlast, _⟩
    cases hlast
  · rw [total_nil, Nat.add_zero, h]

theorem remains_concat {region : Nat} {entries : List Laid} {last : Laid}
    (h : start + total Laid.length entries + region = stop) (hlast : last.length ≤ region) :
    Remains (.region view stop length? closes) start stop
      (if closes last.kind then 0 else region - last.length) (entries ++ [last]) := by
  rw [Remains, complete_region_concat_iff, total_append, total_cons, total_nil]
  split
  · rename_i hcloses
    exact ⟨fun _ => rfl, fun hopen => absurd hcloses hopen⟩
  · rename_i hcloses
    refine ⟨fun hclosed => absurd hclosed hcloses, fun _ => ?_⟩
    omega

theorem Regional.reads {step : Nat → Bytes → Move Nat Entry (Option Note)}
    {recognize : Nat → Option ProtocolId} {note : Nat → Note}
    (h : Regional length? closes step recognize note) (hstop : stop ≤ view.length) (start : Nat) :
    (Listing.region view stop length? closes).Reads view start step
      (Laid.entry recognize note) Entry.length
      (Remains (.region view stop length? closes) start stop) := by
  intro region entries hlays ⟨hclosed, hopen⟩
  generalize hoffset : start + total Laid.length entries = offset at hopen ⊢
  cases hmove : step region (view.drop offset) with
  | stop verdict =>
      by_cases hcomplete : (Listing.region view stop length? closes).Complete entries
      · exact Listing.ends_of_complete hcomplete
      · have hend := hopen hcomplete
        refine Listing.ends_ofLengths hoffset.symm ?_
        intro kind length hkind hlength
        by_cases hregion : region = 0
        · have hpos := h.length_pos hlength
          omega
        · -- The length of a kind in the last byte is read behind the region, and overruns it.
          have hover := h.stop hmove hregion kind length
          simp only [u8?_drop, Nat.add_zero] at hover
          have := hover hkind hlength
          omega
  | take found length next =>
      obtain ⟨hregion, kind, hkind, hlength, hfits, rfl, rfl⟩ := h.take hmove
      have hcomplete := fun hcomplete => hregion (hclosed hcomplete)
      have hend := hopen hcomplete
      simp only [u8?_drop, Nat.add_zero] at hkind hlength
      have hremains : Remains (.region view stop length? closes) start stop
          (if closes kind then 0 else region - length) (entries ++ [⟨kind, offset, length⟩]) :=
        remains_concat (hoffset.symm ▸ hend) hfits
      have hwithin : offset + length ≤ view.length → offset + length ≤ stop := fun _ => by omega
      exact Listing.tells_take hstop hlays hcomplete hoffset.symm hkind hlength hwithin rfl hremains

end Region

theorem optionLength?_eq_some_iff {kind length : Nat} {behind : Option Nat} :
    optionLength? kind behind = some length ↔
      (if kind ≤ 1 then some 1 else behind) = some length ∧ ¬(1 < kind ∧ length < 2) := by
  unfold optionLength?
  split
  · rename_i hshort
    simp [Nat.not_lt_of_le hshort]
  · rw [Option.filter_eq_some_iff, decide_eq_true_eq]
    exact and_congr_right fun _ => by omega

theorem regional_optionStep (recognize : Nat → Option ProtocolId) :
    Regional optionLength? (· = 0) (optionStep recognize) recognize .skippedOption := by
  constructor
  · intro kind length behind h
    obtain ⟨hlength, hwell⟩ := optionLength?_eq_some_iff.mp h
    split at hlength
    · cases hlength
      exact Nat.one_pos
    · omega
  · intro region rest verdict h hregion kind length hkind hmeasured
    obtain ⟨hlength, hwell⟩ := optionLength?_eq_some_iff.mp hmeasured
    simp only [optionStep, if_neg hregion, hkind, hlength] at h
    split at h
    · rename_i hmalformed
      exact hmalformed.resolve_left hwell
    · cases h
  · intro region size next rest found h
    unfold optionStep at h
    split at h
    · cases h
    · rename_i hregion
      split at h
      · cases h
      · rename_i kind hkind
        split at h
        · cases h
        · rename_i length hlength
          split at h
          · cases h
          · rename_i hwell
            rw [not_or, Nat.not_lt] at hwell
            cases h
            exact ⟨hregion, kind, hkind, optionLength?_eq_some_iff.mpr ⟨hlength, hwell.1⟩, hwell.2,
              rfl, by simp⟩

def hopByHopId? (type : Nat) : Option ProtocolId :=
  (HopByHopOption.ofCode? type).map HopByHopOption.id

theorem regional_hopByHopStep :
    Regional hopByHopLength? (fun _ => false) hopByHopStep hopByHopId? .skippedHopByHop := by
  constructor
  · intro type length behind h
    unfold hopByHopLength? at h
    split at h
    · cases h
      exact Nat.one_pos
    · obtain ⟨count, _, rfl⟩ := Option.map_eq_some_iff.mp h
      omega
  · intro region rest verdict h hregion type length htype hmeasured
    unfold hopByHopLength? at hmeasured
    simp only [hopByHopStep, if_neg hregion, htype, hmeasured] at h
    split at h
    · assumption
    · cases h
  · intro region size next rest found h
    unfold hopByHopStep at h
    split at h
    · cases h
    · rename_i hregion
      split at h
      · cases h
      · rename_i type htype
        split at h
        · cases h
        · rename_i length hread
          split at h
          · cases h
          · rename_i hfits
            cases h
            exact ⟨hregion, type, htype, hread, Nat.le_of_not_lt hfits, rfl, rfl⟩

def discoveryId? (type : Nat) : Option ProtocolId :=
  (NdOption.ofCode? type).map NdOption.id

theorem reads_ndStep (view : Bytes) (start : Nat) :
    (Listing.discovery view).Reads view start ndStep (Laid.entry discoveryId? .skippedNdOption)
      Entry.length fun _ _ => True := by
  intro _ entries hlays _
  generalize hoffset : start + total Laid.length entries = offset
  unfold ndStep
  simp only [u8?_drop, Nat.add_zero]
  split
  · rename_i type units htype hunits
    split
    · rename_i hzero
      refine Listing.ends_ofLengths hoffset.symm ?_
      intro _ length _ hlength
      simp [hunits, hzero] at hlength
    · rename_i hpos
      have hlength : ((u8? view (offset + 1)).filter (0 < ·)).map (· * 8) = some (units * 8) := by
        simp [hunits, Nat.pos_of_ne_zero hpos]
      have htold : (Listing.discovery view).Tells view start
          (Laid.entry discoveryId? .skippedNdOption) Entry.length (fun _ _ => True) entries
          (.take (Laid.entry discoveryId? .skippedNdOption ⟨type, offset, units * 8⟩) (units * 8)
            () : Move Unit Entry (Option Note)) :=
        Listing.tells_take (Nat.le_refl _) hlays id hoffset.symm htype hlength id rfl trivial
      unfold Laid.entry discoveryId? at htold ⊢
      split
      · -- A recognized option may overrun the capture. The table is left to refuse it.
        rename_i option hoption
        rw [hoption] at htold
        exact htold
      · rename_i hoption
        rw [hoption] at htold
        split
        · exact htold
        · rename_i hcut
          rw [has_eq_true_iff, List.length_drop] at hcut
          refine Listing.ends_ofLengths hoffset.symm ?_
          intro _ measured _ hmeasured
          cases hlength.symm.trans hmeasured
          omega
  · rename_i hcut
    refine Listing.ends_ofLengths hoffset.symm ?_
    intro type length htype hlength
    obtain ⟨units, hunits, _⟩ := Option.map_eq_some_iff.mp hlength
    exact (hcut type units htype (Option.filter_eq_some_iff.mp hunits).1).elim

namespace RecordTable

/-- What is recorded from an offset on are the entries that are listed there, those of a kind that
is recognized, in order, as far as there is room. -/
structure RecordsExactly (table : RecordTable) (listing : Listing)
    (recognize : Nat → Option ProtocolId) (start : Nat) (recorded : Recorded) : Prop where
  exists_fills : ∃ entries, listing.Fills start entries
  takes : ∀ entries, listing.Fills start entries →
    table.Takes ((entries.filterMap (Laid.place? recognize)).take table.room) recorded.table

theorem recordsExactly_of_reads {table : RecordTable} (h : table.Regular) {view : Bytes}
    (hlimit : table.limit = view.length) {σ : Type} {step : σ → Bytes → Move σ Entry (Option Note)}
    {stands : σ → List Laid → Prop} {listing : Listing} {recognize : Nat → Option ProtocolId}
    {note : Nat → Note} {start : Nat} (hstep : Advances step)
    (hreads : listing.Reads view start step (Laid.entry recognize note) Entry.length stands)
    (hwithin : ∀ entry, listing.WellFormed entry → entry.stop ≤ view.length) {state : σ}
    (hstands : stands state []) (fault : Option Note) :
    table.RecordsExactly listing recognize start
      (table.recordEntries start fault (scan step none state (view.drop start)).items) := by
  obtain ⟨entries, hfills, hplaces⟩ := (asks_entryPieces recognize note).accepted_scan hreads hstep
    hwithin none hstands table.room
  refine ⟨⟨entries, hfills⟩, ?_⟩
  intro others hothers
  cases hfills.unique hothers
  have htakes := takes_recordEntries h start fault (scan step none state (view.drop start)).items
  rw [taken, hlimit, hplaces] at htakes
  exact htakes

/-- The options behind the first `skip` bytes of the header of `length` bytes at an offset, recorded
as they are scanned. -/
def recordRegion (table : RecordTable) (scanned : Nat → Bytes → Scanned Entry (Option Note))
    (offset skip length : Nat) (view : Bytes) : Recorded :=
  table.recordMembers offset ⟨skip, scanned (length - skip) ((view.drop offset).drop skip)⟩

/-- What is recorded of the options of a header is what is listed in their region, whatever bytes
lie outside it. -/
structure RegionExactly (table : RecordTable) (listing : Listing)
    (recognize : Nat → Option ProtocolId) (scanned : Nat → Bytes → Scanned Entry (Option Note))
    (offset skip length : Nat) (view : Bytes) : Prop where
  recorded : table.RecordsExactly listing recognize (offset + skip)
    (table.recordRegion scanned offset skip length view)
  region_only : ∀ other : Bytes,
    Agree (length - skip) (view.drop (offset + skip)) (other.drop (offset + skip)) →
      (table.recordRegion scanned offset skip length other).table =
        (table.recordRegion scanned offset skip length view).table

theorem recordEntries_table_eq (table : RecordTable) (offset : Nat) (fault other : Option Note)
    (entries : List Entry) :
    (table.recordEntries offset fault entries).table =
      (table.recordEntries offset other entries).table := by
  have h := table.recordEntries_hushed offset fault entries
  rw [← table.recordEntries_hushed offset other entries] at h
  exact (Recorded.heard_eq_iff.mp h).1

section Regions

variable {table : RecordTable} {view : Bytes} {offset skip length : Nat}

theorem regionExactly_of_regional (h : table.Regular) (hlimit : table.limit = view.length)
    (hskip : skip ≤ length) (hlength : offset + length ≤ view.length)
    {length? : Nat → Option Nat → Option Nat} {closes : Nat → Bool}
    {step : Nat → Bytes → Move Nat Entry (Option Note)} {recognize : Nat → Option ProtocolId}
    {note : Nat → Note} (hregional : Regional length? closes step recognize note)
    (hstep : Advances step) (hconfined : Confined step) :
    table.RegionExactly (.region view (offset + length) length? closes) recognize
      (scan step none) offset skip length view := by
  constructor
  · have hwithin : ∀ entry,
        (Listing.region view (offset + length) length? closes).WellFormed entry →
          entry.stop ≤ view.length := fun entry hentry => hentry.2.2.trans hlength
    unfold recordRegion recordMembers
    rw [List.drop_drop]
    exact recordsExactly_of_reads h hlimit hstep (hregional.reads hlength _) hwithin
      (remains_nil (by omega)) _
  · intro other hagree
    have hitems : (scan step none (length - skip) (other.drop (offset + skip))).items =
        (scan step none (length - skip) (view.drop (offset + skip))).items :=
      hconfined.items_agree hstep hagree (Nat.le_refl _)
    unfold recordRegion recordMembers
    dsimp only
    rw [List.drop_drop, List.drop_drop, hitems]
    exact recordEntries_table_eq _ _ _ _ _

/-- The options of an IPv4 or TCP header and those of a Hop-by-Hop header are recorded exactly:
those that are recognized, each where it lies, in order, as long as there is room, and nothing
else. -/
theorem recordsExactly_region (h : table.Regular) (hlimit : table.limit = view.length)
    (hskip : skip ≤ length) (hlength : offset + length ≤ view.length) :
    (∀ recognize, table.RegionExactly (.options view (offset + length)) recognize
      (optionEntries recognize) offset skip length view) ∧
    table.RegionExactly (.hopByHop view (offset + length)) hopByHopId? hopByHopEntries offset skip
      length view := by
  constructor
  · intro recognize
    exact regionExactly_of_regional h hlimit hskip hlength (regional_optionStep recognize)
      (optionStep_advances recognize) (confined_optionStep recognize)
  · exact regionExactly_of_regional h hlimit hskip hlength regional_hopByHopStep
      hopByHopStep_advances confined_hopByHopStep

end Regions

/-- A table of 30 records, with room for two more. -/
def scantTable (limit : Nat) : RecordTable :=
  ⟨List.replicate 30 (.ofNats HeaderKind.tcp.id 0 1), 0, limit⟩

/-- A header of thirteen bytes with options behind the first: four of one to four bytes, the second
of a kind that is not recognized, and the kind of a fifth, of which the length lies behind the
header. -/
def headerOfOptions : Bytes :=
  [0, 1, 30, 3, 7, 2, 4, 5, 180, 3, 3, 6, 8, 10, 0, 0]

theorem fills_headerOfOptions :
    (Listing.options headerOfOptions 13).Fills 1 [⟨1, 1, 1⟩, ⟨30, 2, 3⟩, ⟨2, 5, 4⟩, ⟨3, 9, 3⟩] := by
  have hopen {entries : List Laid} (h : ∀ last ∈ entries.getLast?, last.kind ≠ 0) :
      ¬(Listing.options headerOfOptions 13).Complete entries := by
    rintro ⟨last, hlast, hclosed⟩
    exact h last hlast (of_decide_eq_true hclosed)
  constructor
  · have hone : (Listing.options headerOfOptions 13).Lays 1 [⟨1, 1, 1⟩] :=
      .concat .nil (hopen (by decide)) rfl ⟨rfl, rfl, by decide⟩
    have htwo : (Listing.options headerOfOptions 13).Lays 1 [⟨1, 1, 1⟩, ⟨30, 2, 3⟩] :=
      hone.concat (hopen (by decide)) rfl ⟨rfl, rfl, by decide⟩
    have hthree : (Listing.options headerOfOptions 13).Lays 1 [⟨1, 1, 1⟩, ⟨30, 2, 3⟩, ⟨2, 5, 4⟩] :=
      htwo.concat (hopen (by decide)) rfl ⟨rfl, rfl, by decide⟩
    exact hthree.concat (hopen (by decide)) rfl ⟨rfl, rfl, by decide⟩
  · apply Listing.ends_of_forall
    rintro ⟨kind, _, length⟩ rfl ⟨hkind, hlength, hstop⟩
    cases hkind
    cases hlength
    exact absurd hstop (by decide)

theorem recordsExactly_headerOfOptions :
    let table := scantTable headerOfOptions.length
    let recognize kind := (TcpOption.ofCode? kind).map TcpOption.id
    table.Regular ∧ table.limit = headerOfOptions.length ∧ 1 ≤ 13 ∧
      0 + 13 ≤ headerOfOptions.length ∧
      table.Takes [⟨TcpOption.nop.id, 1, 1⟩, ⟨TcpOption.maximumSegmentSize.id, 5, 4⟩]
        (table.recordRegion (optionEntries recognize) 0 1 13 headerOfOptions).table := by
  intro table recognize
  have hregular : table.Regular := ⟨by decide, by decide⟩
  have hlimit : table.limit = headerOfOptions.length := rfl
  have hskip : 1 ≤ 13 := by decide
  have hlength : 0 + 13 ≤ headerOfOptions.length := by decide
  exact ⟨hregular, hlimit, hskip, hlength,
    ((recordsExactly_region hregular hlimit hskip hlength).1 recognize).recorded.takes _
      fills_headerOfOptions⟩

section Discovery

variable {table : RecordTable} {view : Bytes}

/-- No Neighbor-Discovery option is at an offset: its length is not captured, or is zero, or goes
beyond the capture. -/
def NoDiscovery (view : Bytes) (offset : Nat) : Prop :=
  u8? view (offset + 1) = none ∨
    ∃ units, u8? view (offset + 1) = some units ∧ (units = 0 ∨ view.length < offset + 8 * units)

theorem ends_discovery_iff {start : Nat} {entries : List Laid}
    (hlays : (Listing.discovery view).Lays start entries) :
    (Listing.discovery view).Ends start entries ↔
      NoDiscovery view (start + total Laid.length entries) := by
  generalize hoffset : start + total Laid.length entries = offset
  constructor
  · intro hends
    cases hunits : u8? view (offset + 1) with
    | none => exact .inl hunits
    | some units =>
        refine .inr ⟨units, hunits, Decidable.or_iff_not_imp_left.mpr fun hpos => ?_⟩
        by_contra hfits
        have hinside := (u8?_isSome_iff view (offset + 1)).mp (by rw [hunits]; rfl)
        obtain ⟨type, htype⟩ := exists_u8? view offset (by omega)
        have hlength : ((u8? view (offset + 1)).filter (0 < ·)).map (· * 8) = some (units * 8) := by
          simp [hunits, Nat.pos_of_ne_zero hpos]
        have hstop : offset + units * 8 ≤ view.length := by omega
        exact hends ⟨type, offset, units * 8⟩
          (.concat hlays id hoffset.symm ⟨htype, hlength, hstop⟩)
  · intro hnone
    refine Listing.ends_ofLengths hoffset.symm ?_
    intro type length _ hlength
    obtain ⟨units, hunits, rfl⟩ := Option.map_eq_some_iff.mp hlength
    obtain ⟨hunits, hpos⟩ := Option.filter_eq_some_iff.mp hunits
    have hpos := of_decide_eq_true hpos
    rcases hnone with hnone | ⟨_, hread, hover⟩
    · cases hnone.symm.trans hunits
    · cases hread.symm.trans hunits
      omega

/-- The options behind the first `skip` bytes of a discovery message are recorded exactly, up to
where none is captured whole, be its type recognized or not. -/
theorem recordsExactly_discovery (h : table.Regular) (hlimit : table.limit = view.length)
    (offset skip : Nat) :
    table.RecordsExactly (.discovery view) discoveryId? (offset + skip)
      (table.recordMembers offset ⟨skip, ndEntries ((view.drop offset).drop skip)⟩) ∧
    ∀ entries, (Listing.discovery view).Fills (offset + skip) entries ↔
      (Listing.discovery view).Lays (offset + skip) entries ∧
        NoDiscovery view (offset + skip + total Laid.length entries) := by
  constructor
  · unfold recordMembers
    rw [List.drop_drop]
    exact recordsExactly_of_reads h hlimit ndStep_advances (reads_ndStep view _)
      (fun entry hentry => hentry.2.2) trivial _
  · intro entries
    constructor
    · intro hfills
      exact ⟨hfills.lays, (ends_discovery_iff hfills.lays).mp hfills.ends⟩
    · rintro ⟨hlays, hnone⟩
      exact ⟨hlays, (ends_discovery_iff hlays).mpr hnone⟩

/-- Four bytes of a message and what is behind them: a source link-layer address, an option of
eight bytes of a type that is not recognized, an MTU option, and a prefix of which the last byte
is not captured. -/
def messageOfOptions : Bytes :=
  [135, 0, 0, 0] ++ [1, 1, 2, 0, 0, 0, 0, 1] ++ [200, 1, 0, 0, 0, 0, 0, 0] ++
    [5, 1, 0, 0, 0, 0, 5, 220] ++ [3, 4] ++ List.replicate 29 0

theorem lays_messageOfOptions : (Listing.discovery messageOfOptions).Lays 4
    [⟨1, 4, 8⟩, ⟨200, 12, 8⟩, ⟨5, 20, 8⟩] := by
  have hone : (Listing.discovery messageOfOptions).Lays 4 [⟨1, 4, 8⟩] :=
    .concat .nil id rfl ⟨rfl, rfl, by decide⟩
  have htwo : (Listing.discovery messageOfOptions).Lays 4 [⟨1, 4, 8⟩, ⟨200, 12, 8⟩] :=
    hone.concat id rfl ⟨rfl, rfl, by decide⟩
  exact htwo.concat id rfl ⟨rfl, rfl, by decide⟩

theorem recordsExactly_messageOfOptions :
    let table := scantTable messageOfOptions.length
    table.Regular ∧ table.limit = messageOfOptions.length ∧
      table.Takes [⟨NdOption.sourceLinkLayerAddress.id, 4, 8⟩, ⟨NdOption.mtu.id, 20, 8⟩]
        (table.recordMembers 0 ⟨4, ndEntries (messageOfOptions.drop 4)⟩).table := by
  have hregular : (scantTable messageOfOptions.length).Regular := ⟨by decide, by decide⟩
  obtain ⟨hexactly, hfills⟩ := recordsExactly_discovery hregular rfl 0 4
  have hnone : NoDiscovery messageOfOptions 28 := .inr ⟨4, rfl, .inr (by decide)⟩
  exact ⟨hregular, rfl, hexactly.takes _ ((hfills _).mpr ⟨lays_messageOfOptions, hnone⟩)⟩

end Discovery

end RecordTable

end Dissection

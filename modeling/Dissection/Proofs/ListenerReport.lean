import Dissection.Proofs.Deepening
import Dissection.Proofs.Geometry
import Dissection.Proofs.Listing

namespace Dissection

open Bytes

/-- The length of the address record at an offset, with its auxiliary words of four bytes and its
sources of sixteen. -/
def addressRecordLength? (view : Bytes) (offset : Nat) : Option Nat := do
  let words ← u8? view (offset + 1)
  let sources ← u16? view (offset + 2)
  some (20 + 4 * words + 16 * sources)

/-- The address records that are captured whole. -/
def Listing.addressRecords (view : Bytes) : Listing :=
  .ofLengths view view.length (fun _ offset => addressRecordLength? view offset) fun _ => False

def addressRecordId (type : Nat) : ProtocolId :=
  (AddressRecord.ofCode type).id

/-- An address record as it is found behind a report. -/
def Laid.trailer (laid : Laid) : Trailer :=
  ⟨addressRecordId laid.kind, laid.length, .none, none⟩

def Laid.addressPlace (laid : Laid) : Placement :=
  ⟨addressRecordId laid.kind, laid.offset, laid.length⟩

theorem filterMap_addressPlace (entries : List Laid) :
    entries.filterMap (Laid.place? fun type => some (addressRecordId type)) =
      entries.map Laid.addressPlace :=
  congrFun List.filterMap_eq_map entries

theorem total_addressPlace (entries : List Laid) :
    total Placement.length (entries.map Laid.addressPlace) = total Laid.length entries :=
  total_map _ _ entries

theorem asks_trailerPieces :
    Asks trailerPieces Laid.trailer Trailer.length fun type => some (addressRecordId type) := by
  constructor
  · exact fun _ => rfl
  · exact fun offset trailers last => trailerPieces_append offset trailers [last]
  · exact fun _ => rfl
  · exact fun _ => rfl
  · intro offset last piece hpiece
    cases hpiece
    rfl

theorem reads_addressRecordStep (view : Bytes) (start count : Nat) :
    ((Listing.addressRecords view).upTo count).Reads view start addressRecordStep Laid.trailer
      Trailer.length fun left entries => entries.length + left = count := by
  intro left entries hlays hleft
  cases left with
  | zero => exact Listing.ends_of_complete (.inr hleft)
  | succ left =>
      generalize hoffset : start + total Laid.length entries = offset
      rw [Listing.addressRecords, Listing.ofLengths_upTo] at hlays ⊢
      simp only [addressRecordStep, u8?_drop, u16?_drop, Nat.add_zero]
      split
      · rename_i type words sources htype hwords hsources
        have hopen : ¬(False ∨ entries.length = count) := by
          rw [false_or]
          omega
        have hlength : addressRecordLength? view offset = some (20 + words * 4 + sources * 16) := by
          simp [addressRecordLength?, hwords, hsources, Nat.mul_comm]
        have hnext (last : Laid) : (entries ++ [last]).length + left = count := by
          rw [List.length_append, List.length_singleton]
          omega
        exact Listing.tells_take (Nat.le_refl _) hlays hopen hoffset.symm htype hlength id rfl
          (hnext _)
      · rename_i hcut
        refine Listing.ends_ofLengths hoffset.symm ?_
        intro type length htype hlength
        simp only [addressRecordLength?, Option.bind_eq_bind, Option.bind_eq_some_iff] at hlength
        obtain ⟨words, hwords, sources, hsources, _⟩ := hlength
        exact (hcut type words sources htype hwords hsources).elim

theorem Finds.chain_items {expected : Expected} {rest : Bytes} {layer : Layer} {ending : Ending}
    (h : Finds rest expected layer (.nothing ending)) : (chain expected rest).items = [layer] := by
  rw [chain_eq, h.chainStep_eq, Layer.then]
  dsimp only
  split
  · rw [Scanned.cons_items, chain_nothing]
  · rfl

namespace RecordTable

section Trailed

variable {table added : RecordTable} {offset : Nat}

theorem exists_taken_addressRecords {view : Bytes} (hlimit : added.limit = view.length)
    (count : Nat) :
    ∃ entries, (Listing.addressRecords view).Longest (offset + 8) (min count added.room) entries ∧
      (added.taken (trailerPieces (offset + 8)
        (addressRecords count (view.drop (offset + 8))))).map Piece.place =
          entries.map Laid.addressPlace := by
  have hwithin : ∀ entry, ((Listing.addressRecords view).upTo count).WellFormed entry →
      entry.stop ≤ view.length := fun entry hentry => hentry.2.2
  obtain ⟨entries, hfills, hplaces⟩ := asks_trailerPieces.accepted_scan
    (reads_addressRecordStep view (offset + 8) count) addressRecordStep_advances hwithin ()
    (Nat.zero_add _) added.room
  refine ⟨entries.take added.room, hfills.longest added.room, ?_⟩
  rw [filterMap_addressPlace, ← List.map_take] at hplaces
  rw [taken, hlimit]
  exact hplaces

theorem widened_taken_trailed (h : table.Regular) {kind : HeaderKind} {depth length : Nat}
    {marks : List Mark} {trailers : List Trailer}
    (hadd : table.add? ⟨kind.id, offset, length⟩ = some added)
    (hrecords : ∀ trailer ∈ trailers, trailer.IsAddressRecord) {places : List Placement}
    (hplaces : (added.taken (trailerPieces (offset + length) trailers)).map Piece.place =
      places) :
    widened (table.taken (Layer.pieces ⟨kind, depth, length, marks, .none, some trailers⟩ offset)) =
      ⟨kind.id, offset, length + total Placement.length places⟩ :: places := by
  have hparts : Layer.parts ⟨kind, depth, length, marks, .none, some trailers⟩ offset =
      trailerPieces (offset + length) trailers := rfl
  rw [Layer.pieces, hparts, taken_of_some h hadd, widened]
  generalize hfront : added.taken (trailerPieces (offset + length) trailers) = front
    at hplaces ⊢
  have hprefix : front <+: trailerPieces (offset + length) trailers :=
    hfront ▸ added.taken_front _
  have hroles : ∀ piece ∈ front, piece.role ≠ .header := by
    intro piece hpiece
    exact Layer.role_of_mem_parts (hparts ▸ hprefix.subset hpiece)
  have htiled := (addressRecords_of_front hrecords hprefix).2.total_length
  rw [hplaces, Nat.add_left_cancel_iff] at htiled
  rw [widened_eq_map hroles, hplaces, htiled]

end Trailed

end RecordTable

/-- A report that is taken is followed by its address records, one by one up to the count that it
announces, as far as they are captured whole and there is room, and its own record ends with the
last of them. -/
theorem recordChain_report {table added : RecordTable} (h : table.Regular) {view : Bytes}
    (hlimit : table.limit = view.length) (summary : Summary) {offset : Nat} (depth : Nat)
    (htype : u8? view offset = some Icmp6Type.listenerReport)
    (hadd : table.add? ⟨HeaderKind.icmp6ListenerReport.id, offset, 8⟩ = some added) :
    ∃ count entries, u16? view (offset + 6) = some count ∧
      (Listing.addressRecords view).Longest (offset + 8) (min count added.room) entries ∧
      table.Takes (⟨HeaderKind.icmp6ListenerReport.id, offset, 8 + total Laid.length entries⟩ ::
          entries.map Laid.addressPlace)
        (recordChain table summary view offset (.icmp6 depth)).1.table := by
  have hstop := RecordTable.stop_le_of_add? hadd
  rw [hlimit, Placement.stop] at hstop
  dsimp only at hstop
  have htakes := RecordTable.takes_add? h hadd
  obtain ⟨count, hcount⟩ := exists_u16? view (offset + 6) (by omega)
  obtain ⟨entries, hlongest, hplaces⟩ :=
    RecordTable.exists_taken_addressRecords (htakes.limit_eq.trans hlimit) count
  refine ⟨count, entries, hcount, hlongest, ?_⟩
  have hfinds : Finds (view.drop offset) (.icmp6 depth) _ _ := .icmp6Report (by rwa [u8?_drop])
  have hplaces : widened (table.taken
      (layerPieces offset (chain (.icmp6 depth) (view.drop offset)).items)) =
        ⟨HeaderKind.icmp6ListenerReport.id, offset, 8 + total Laid.length entries⟩ ::
          entries.map Laid.addressPlace := by
    rw [hfinds.chain_items, u16?_drop, hcount, Option.getD_some, List.drop_drop, layerPieces,
      layerPieces, List.append_nil, RecordTable.widened_taken_trailed h hadd
        (addressRecords_isAddressRecord _ _) hplaces, total_addressPlace]
  rw [← hplaces]
  exact takes_recordLayers h summary offset (chain_closed (.icmp6 depth) (view.drop offset))

/-- A report that announces three address records: one with an auxiliary word and a source, one of
a type that is not assigned, and one that is not captured whole. -/
def reportBytes : Bytes :=
  [143, 0, 0, 0, 0, 0, 0, 3] ++ [1, 1, 0, 1] ++ List.replicate 36 0 ++
    [9, 0, 0, 0] ++ List.replicate 16 0 ++ [2, 0, 0, 0] ++ List.replicate 15 0

theorem fills_reportBytes :
    (Listing.addressRecords reportBytes).Fills 8 [⟨1, 8, 40⟩, ⟨9, 48, 20⟩] := by
  constructor
  · have hone : (Listing.addressRecords reportBytes).Lays 8 [⟨1, 8, 40⟩] :=
      .concat .nil id rfl ⟨rfl, rfl, by decide⟩
    exact hone.concat id rfl ⟨rfl, rfl, by decide⟩
  · apply Listing.ends_of_forall
    rintro ⟨kind, _, length⟩ rfl ⟨hkind, hlength, hstop⟩
    cases hkind
    cases hlength
    exact absurd hstop (by decide)

theorem recordChain_reportBytes :
    let table := RecordTable.empty reportBytes.length 0
    ∃ added, table.Regular ∧ table.limit = reportBytes.length ∧
      u8? reportBytes 0 = some Icmp6Type.listenerReport ∧
      table.add? ⟨HeaderKind.icmp6ListenerReport.id, 0, 8⟩ = some added ∧
      table.Takes [⟨HeaderKind.icmp6ListenerReport.id, 0, 68⟩,
          ⟨AddressRecord.modeIsInclude.id, 8, 40⟩, ⟨AddressRecord.other.id, 48, 20⟩]
        (recordChain table .blank reportBytes 0 (.icmp6 1)).1.table := by
  intro table
  have hregular : table.Regular := ⟨by decide, by decide⟩
  have htype : u8? reportBytes 0 = some Icmp6Type.listenerReport := rfl
  have hadd : table.add? ⟨HeaderKind.icmp6ListenerReport.id, 0, 8⟩ = some _ := rfl
  refine ⟨_, hregular, rfl, htype, hadd, ?_⟩
  obtain ⟨count, entries, hcount, hlongest, htakes⟩ :=
    recordChain_report hregular rfl .blank 1 htype hadd
  cases hcount
  have hfront := fills_reportBytes.front_of_lays hlongest.lays
  have hlength : 2 ≤ entries.length :=
    hlongest.greatest.2 ⟨by decide, _, fills_reportBytes.lays, rfl⟩
  cases hfront.eq_of_length_le hlength
  exact htakes

end Dissection

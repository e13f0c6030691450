import Dissection.Proofs.Arrangement
import Dissection.Proofs.DissectedPlaces
import Dissection.Proofs.Successors

namespace Dissection

open Bytes

namespace SourceRoute

theorem four_le {rest : Bytes} {length : Nat} (h : SourceRoute rest length) : 4 ≤ length := by
  cases h <;> omega

theorem length_le {rest : Bytes} {length : Nat} (h : SourceRoute rest length) :
    length ≤ rest.length := by
  induction h with
  | @last rest _ hlength =>
      exact (u8?_isSome_iff rest 3).mp (Option.isSome_of_eq_some hlength)
  | entry _ _ _ hbehind ih =>
      have hfour := hbehind.four_le
      rw [List.length_drop] at ih
      omega

end SourceRoute

theorem sourceRouteStep_take {next : Bool} {rest : Bytes} {item size : Nat}
    (h : sourceRouteStep false rest = .take item size next) :
    ∃ family length, u16? rest 0 = some family ∧ u8? rest 3 = some length ∧
      item = 4 + length ∧ size = 4 + length ∧ (next = true ↔ family = 0 ∧ length = 0) := by
  unfold sourceRouteStep at h
  rw [if_neg Bool.false_ne_true] at h
  split at h
  · rename_i family length hfamily hlength
    cases h
    exact ⟨family, length, hfamily, hlength, rfl, rfl, by simp⟩
  · cases h

theorem sourceRouteStep_stop {finished verdict : Bool} {rest : Bytes}
    (h : sourceRouteStep finished rest = .stop verdict) : verdict = finished := by
  unfold sourceRouteStep at h
  split at h
  · rename_i hfinished
    cases h
    exact hfinished.symm
  · rename_i hmore
    split at h
    · cases h
    · cases h
      exact (Bool.not_eq_true _ ▸ hmore).symm

theorem Scans.sourceRoute {finished : Bool} {rest : Bytes} {found : Scanned Nat Bool}
    (h : Scans sourceRouteStep false finished rest found) (hfinished : finished = false)
    (hverdict : found.verdict = true) : SourceRoute rest (total id found.items) := by
  induction h with
  | stop hmove =>
      rw [sourceRouteStep_stop hmove, hfinished] at hverdict
      cases hverdict
  | last hmove hsize => cases hverdict
  | @take finished next rest item size behind hmove hsize hbehind ih =>
      subst hfinished
      obtain ⟨family, length, hfamily, hlength, rfl, rfl, hlast⟩ := sourceRouteStep_take hmove
      rw [Scanned.cons_items, total_cons, id_eq]
      cases next with
      | false =>
          exact .entry hfamily hlength (fun hnull => Bool.false_ne_true (hlast.mpr hnull))
            (ih rfl hverdict)
      | true =>
          obtain ⟨rfl, rfl⟩ := hlast.mp rfl
          -- Behind the last entry no more are read.
          cases hbehind with
          | stop _ => exact .last hfamily hlength
          | last hmore _ => cases hmore
          | take hmore _ _ => cases hmore

theorem sourceRouteLength?_eq_some_iff {rest : Bytes} {length : Nat} :
    sourceRouteLength? rest = some length ↔ SourceRoute rest length := by
  constructor
  · intro h
    unfold sourceRouteLength? at h
    dsimp only at h
    split at h
    · rename_i hverdict
      cases h
      exact (scans_scan sourceRouteStep_advances false rest).sourceRoute rfl hverdict
    · cases h
  · intro h
    have hroute := h.length_of_take h.length_le (Nat.le_refl _)
    rwa [List.take_length] at hroute

/-- The length that the flags of a GRE header give it without its source route: the first four
bytes, and four bytes for the checksum or the route, for the key, for the sequence number and for
the acknowledgment of version 1. -/
def greFieldsLength (flags : Nat) : Nat :=
  4 + 4 * (flags.testBit 15 || flags.testBit 14).toNat + 4 * (flags.testBit 13).toNat +
    4 * (flags.testBit 12).toNat + 4 * (flags % 8 = 1 && flags.testBit 7).toNat

theorem greFixedLength_eq (flags : Nat) : greFixedLength flags = greFieldsLength flags := by
  have hfour (flag : Bool) : (if flag then 4 else 0) = 4 * flag.toNat := by cases flag <;> rfl
  simp only [greFixedLength, greFieldsLength, hfour]

/-- The GRE header at an offset is captured whole. Its length is that of its fields and, where its
flags announce one, of the source route behind them. -/
structure GreHeader (view : Bytes) (offset length : Nat) : Prop where
  exists_flags : ∃ flags route, u16? view offset = some flags ∧
    length = greFieldsLength flags + route ∧
    if flags.testBit 14 then SourceRoute (view.drop (offset + greFieldsLength flags)) route
    else route = 0
  captured : offset + length ≤ view.length

section Finding

variable {view : Bytes} {offset length flags : Nat}

theorem greLength?_eq_some_iff : greLength? flags (view.drop offset) = some length ↔
    ∃ route, length = greFieldsLength flags + route ∧
      if flags.testBit 14 then SourceRoute (view.drop (offset + greFieldsLength flags)) route
      else route = 0 := by
  unfold greLength?
  dsimp only
  rw [greFixedLength_eq, List.drop_drop]
  split
  · simp only [Option.map_eq_some_iff, sourceRouteLength?_eq_some_iff]
    exact exists_congr fun route => by rw [and_comm, eq_comm]
  · simp [eq_comm]

theorem GreHeader.finds (h : GreHeader view offset length) (depth : Nat) :
    ∃ etherType, u16? view (offset + 2) = some etherType ∧
      Finds (view.drop offset) (.gre depth) (.plain .gre depth length [.transport .gre])
        (.ofGrePayload depth etherType) := by
  obtain ⟨⟨flags, route, hflags, hlength⟩, hcaptured⟩ := h
  have hfour : 4 ≤ length := by
    rw [hlength.1, greFieldsLength]
    omega
  obtain ⟨etherType, htype⟩ := exists_u16? view (offset + 2) (by omega)
  refine ⟨etherType, htype, .gre ?_ ?_ (greLength?_eq_some_iff.mpr ⟨route, hlength⟩)⟩
  · rwa [u16?_drop]
  · rwa [u16?_drop]

theorem Finds.greHeader {depth : Nat} {layer : Layer} {next : Expected}
    (h : Finds (view.drop offset) (.gre depth) layer next)
    (hcaptured : offset + layer.length ≤ view.length) : GreHeader view offset layer.length := by
  cases h with
  | gre hflags _ hlength =>
      obtain ⟨route, hroute⟩ := greLength?_eq_some_iff.mp hlength
      rw [u16?_drop] at hflags
      exact ⟨⟨_, route, hflags, hroute⟩, hcaptured⟩

end Finding

section Recording

variable {table added : RecordTable} {view : Bytes} {offset : Nat}

theorem offset_of_head?_widened {layers : List Layer} {front : List Piece}
    (h : front <+: layerPieces offset layers) :
    ∀ place ∈ (widened front).head?, place.offset = offset := by
  intro place hplace
  cases layers with
  | nil =>
      rw [List.prefix_nil.mp h] at hplace
      cases hplace
  | cons layer rest =>
      rcases front_layerPieces_cases h with rfl | ⟨parts, behind, rfl, _⟩
      · cases hplace
      · cases hplace
        rfl

/-- A header that is recorded and has nothing trailing it leaves the bytes behind it to what is
expected there. -/
theorem recordChain_of_plain {kind : HeaderKind} {depth length : Nat} {marks : List Mark}
    {expected next : Expected} (summary : Summary)
    (hfinds : Finds (view.drop offset) expected (.plain kind depth length marks) next)
    (hadd : table.add? ⟨kind.id, offset, length⟩ = some added)
    (hcaptured : offset + length ≤ view.length) :
    ∃ behind, (recordChain table summary view offset expected).1.table =
      (recordChain added behind view (offset + length) next).1.table := by
  have hhas : has (view.drop offset) length = true := by
    rw [has_eq_true_iff, List.length_drop]
    omega
  have hchain : chain expected (view.drop offset) =
      (chain next (view.drop (offset + length))).cons (.plain kind depth length marks) := by
    rw [chain_eq, hfinds.chainStep_eq, Layer.then, Layer.span_plain]
    dsimp only
    rw [if_pos hhas, List.drop_drop]
  refine ⟨summary.addLayer (.plain kind depth length marks) marks, ?_⟩
  unfold recordChain
  rw [hchain]
  simp only [Scanned.cons_items, recordLayers, recordLayer, Layer.plain, hadd]
  rfl

/-- A header is recorded at its place, and what is expected behind it is dissected from its end
on. -/
structure RecordTable.Nests (table : RecordTable) (place : Placement) (view : Bytes)
    (next : Expected) (result : RecordTable) : Prop where
  exists_added : ∃ added summary, table.add? place = some added ∧
    result = (recordChain added summary view place.stop next).1.table
  exists_packet : ∃ packet, table.Takes (place :: packet) result ∧
    ∀ head ∈ packet.head?, head.offset = place.stop

theorem nests_of_plain (h : table.Regular) (hlimit : table.limit = view.length)
    (hroom : 0 < table.room) {kind : HeaderKind} {depth length : Nat} {marks : List Mark}
    {expected next : Expected} (summary : Summary)
    (hfinds : Finds (view.drop offset) expected (.plain kind depth length marks) next)
    (hcaptured : offset + length ≤ view.length) :
    table.Nests ⟨kind.id, offset, length⟩ view next
      (recordChain table summary view offset expected).1.table := by
  have hbound := h.limit_le
  have hadds : (table.add? ⟨kind.id, offset, length⟩).isSome := by
    rw [RecordTable.add?_isSome_iff]
    unfold RecordTable.room at hroom
    dsimp only
    omega
  obtain ⟨added, hadd⟩ := Option.isSome_iff_exists.mp hadds
  obtain ⟨behind, hbehind⟩ := recordChain_of_plain summary hfinds hadd hcaptured
  have htakes := RecordTable.takes_add? h hadd
  have hpacket := takes_recordLayers htakes.regular behind (offset + length)
    (chain_closed next (view.drop (offset + length)))
  rw [hbehind]
  exact ⟨⟨added, behind, hadd, rfl⟩, _, htakes.trans hpacket,
    offset_of_head?_widened (added.taken_front _)⟩

theorem recordChain_eq_of_uncaptured {expected : Expected} (summary : Summary)
    (h : ∀ layer next, Finds (view.drop offset) expected layer next →
      view.length < offset + layer.length) (hlimit : table.limit = view.length) :
    (recordChain table summary view offset expected).1.table = table := by
  unfold recordChain
  rw [chain_eq]
  cases hmove : chainStep expected (view.drop offset) with
  | stop ending => rfl
  | take layer span next =>
      obtain ⟨rfl, hfinds⟩ := chainStep_eq_take_iff.mp hmove
      have hover := h layer next hfinds
      have hlength := hfinds.shaped.length_pos
      have hnone : table.add? ⟨layer.kind.id, offset, layer.length⟩ = none := by
        rw [← Option.not_isSome_iff_eq_none, RecordTable.add?_isSome_iff]
        dsimp only
        omega
      have hcut : ¬has (view.drop offset) layer.span = true := by
        rw [has_eq_true_iff, List.length_drop, Layer.span]
        omega
      dsimp only
      rw [if_neg hcut]
      simp only [recordLayers, recordLayer, hnone]

end Recording

/-- A GRE header is recorded where it is captured whole, with the packet that it carries dissected
from its end on, and where it is not, nothing is recorded. -/
theorem recordChain_gre {table : RecordTable} (h : table.Regular) {view : Bytes}
    (hlimit : table.limit = view.length) (hroom : 0 < table.room) (summary : Summary)
    (offset depth : Nat) :
    (∀ length, GreHeader view offset length → ∃ etherType,
      u16? view (offset + 2) = some etherType ∧
        table.Nests ⟨HeaderKind.gre.id, offset, length⟩ view (.ofGrePayload depth etherType)
          (recordChain table summary view offset (.gre depth)).1.table) ∧
    ((∀ length, ¬GreHeader view offset length) →
      (recordChain table summary view offset (.gre depth)).1.table = table) := by
  constructor
  · intro length hheader
    obtain ⟨etherType, htype, hfinds⟩ := hheader.finds depth
    exact ⟨etherType, htype, nests_of_plain h hlimit hroom summary hfinds hheader.captured⟩
  · intro hnone
    refine recordChain_eq_of_uncaptured summary ?_ hlimit
    intro layer next hfinds
    by_contra hcaptured
    exact hnone _ (hfinds.greHeader (Nat.not_lt.mp hcaptured))

/-- A GRE header with a key and a source route, of which the last entry is the second, and the
IPv4 header that it carries. -/
def greBytes : Bytes :=
  [0x60, 0, 0x08, 0, 0, 0, 0, 0, 0, 0, 0, 7] ++ [8, 0, 0, 4, 10, 0, 0, 1] ++ [0, 0, 0, 0] ++
    [0x45, 0, 0, 20, 0, 0, 0, 0, 64, 253] ++ List.replicate 10 0

theorem greHeader_greBytes : GreHeader greBytes 0 24 := by
  have hlast : SourceRoute (greBytes.drop 20) 4 := .last rfl rfl
  have hmore : ¬(0x0800 = 0 ∧ 4 = 0) := by decide
  exact ⟨⟨0x6000, 12, rfl, rfl, .entry rfl rfl hmore hlast⟩, by decide⟩

theorem not_greHeader_cut (length : Nat) : ¬GreHeader (greBytes.take 23) 0 length := by
  rintro ⟨⟨flags, route, hflags, hlength⟩, _⟩
  cases hflags
  have hsome := greLength?_eq_some_iff.mpr ⟨route, hlength⟩
  have hnone : greLength? 0x6000 ((greBytes.take 23).drop 0) = none := by decide
  cases hnone.symm.trans hsome

theorem recordChain_greBytes :
    let table := RecordTable.empty greBytes.length 0
    let cutTable := RecordTable.empty 23 0
    table.Regular ∧ table.limit = greBytes.length ∧ 0 < table.room ∧
      table.Nests ⟨HeaderKind.gre.id, 0, 24⟩ greBytes (.ipv4 2)
        (recordChain table .blank greBytes 0 (.gre 1)).1.table ∧
      (recordChain cutTable .blank (greBytes.take 23) 0 (.gre 1)).1.table = cutTable := by
  intro table cutTable
  have hregular : table.Regular := ⟨by decide, by decide⟩
  have hcutRegular : cutTable.Regular := ⟨by decide, by decide⟩
  have hroom : 0 < table.room := by decide
  obtain ⟨etherType, htype, hnests⟩ :=
    (recordChain_gre hregular rfl hroom .blank 0 1).1 24 greHeader_greBytes
  have hread : u16? greBytes (0 + 2) = some 0x0800 := rfl
  cases hread.symm.trans htype
  exact ⟨hregular, rfl, hroom, hnests,
    (recordChain_gre hcutRegular rfl (by decide) .blank 0 1).2 not_greHeader_cut⟩

end Dissection

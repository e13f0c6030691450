import Dissection.Proofs.DissectedPlaces

namespace Dissection

/-- The place `distance` bytes further on. -/
def Placement.shift (distance : Nat) (place : Placement) : Placement :=
  { place with offset := place.offset + distance }

/-- The piece `distance` bytes further on. -/
def Piece.shift (distance : Nat) (piece : Piece) : Piece :=
  ⟨piece.role, piece.place.shift distance⟩

@[simp] theorem Placement.stop_shift (distance : Nat) (place : Placement) :
    (place.shift distance).stop = place.stop + distance :=
  Nat.add_right_comm _ _ _

section Pieces

variable (offset distance : Nat)

theorem entryPieces_shift (entries : List Entry) :
    entryPieces (offset + distance) entries =
      (entryPieces offset entries).map (Piece.shift distance) := by
  induction entries generalizing offset with
  | nil => rfl
  | cons entry rest ih =>
      rw [entryPieces, entryPieces, Nat.add_right_comm, ih]
      cases entry.finding <;> rfl

theorem Members.pieces_shift (members : Members) :
    members.pieces (offset + distance) = (members.pieces offset).map (Piece.shift distance) := by
  rw [Members.pieces, Nat.add_right_comm, entryPieces_shift, Members.pieces]

theorem trailerPieces_shift (trailers : List Trailer) :
    trailerPieces (offset + distance) trailers =
      (trailerPieces offset trailers).map (Piece.shift distance) := by
  induction trailers generalizing offset with
  | nil => rfl
  | cons trailer rest ih =>
      rw [trailerPieces, trailerPieces, trailer.members.pieces_shift, Nat.add_right_comm, ih,
        List.map_cons, List.map_append]
      rfl

theorem Layer.pieces_shift (layer : Layer) :
    layer.pieces (offset + distance) = (layer.pieces offset).map (Piece.shift distance) := by
  rw [Layer.pieces, Layer.parts, layer.members.pieces_shift, Nat.add_right_comm,
    trailerPieces_shift, Layer.pieces, Layer.parts, List.map_cons, List.map_append]
  rfl

theorem layerPieces_shift (layers : List Layer) :
    layerPieces (offset + distance) layers =
      (layerPieces offset layers).map (Piece.shift distance) := by
  induction layers generalizing offset with
  | nil => rfl
  | cons layer rest ih =>
      rw [layerPieces, layerPieces, layer.pieces_shift, Nat.add_right_comm, ih, List.map_append]

end Pieces

theorem accepted_shift (room limit distance : Nat) (pieces : List Piece) :
    accepted room (limit + distance) (pieces.map (Piece.shift distance)) =
      (accepted room limit pieces).map (Piece.shift distance) := by
  rw [accepted, accepted, List.map_take, List.takeWhile_map]
  simp [Function.comp_def, Piece.shift]

theorem trailed_shift (distance : Nat) (pieces : List Piece) :
    trailed (pieces.map (Piece.shift distance)) = trailed pieces := by
  induction pieces with
  | nil => rfl
  | cons piece pieces ih =>
      obtain ⟨role, place⟩ := piece
      cases role <;> simp [trailed, Piece.shift, Placement.shift, ih]

theorem widened_shift (distance : Nat) (pieces : List Piece) :
    widened (pieces.map (Piece.shift distance)) =
      (widened pieces).map (Placement.shift distance) := by
  induction pieces with
  | nil => rfl
  | cons piece pieces ih =>
      obtain ⟨role, place⟩ := piece
      cases role <;> simp [widened, Piece.shift, Placement.shift, trailed_shift, ih]

/-- The records of bytes at whose front a header is expected, where there is room for
`room` of them. -/
def chainPlaces (room : Nat) (expected : Expected) (rest : Bytes) : List Placement :=
  widened (accepted room rest.length (layerPieces 0 (chain expected rest).items))

theorem accepted_layerPieces_beyond (room : Nat) {limit offset : Nat} {layers : List Layer}
    (hoffset : limit ≤ offset) (hlength : ∀ layer ∈ layers, 0 < layer.length) :
    accepted room limit (layerPieces offset layers) = [] := by
  cases layers with
  | nil => exact accepted_nil
  | cons layer rest =>
      have hlayer := hlength layer List.mem_cons_self
      rw [layerPieces, Layer.pieces, List.cons_append]
      refine accepted_cons_of_lt ?_
      unfold Placement.stop
      dsimp only
      omega

theorem widened_chain (room : Nat) (captured : Bytes) (offset : Nat) (expected : Expected) :
    widened (accepted room captured.length
        (layerPieces offset (chain expected (captured.drop offset)).items)) =
      (chainPlaces room expected (captured.drop offset)).map (Placement.shift offset) := by
  rw [chainPlaces]
  rcases Nat.lt_or_ge captured.length offset with hbeyond | hwithin
  · -- Behind the capture there are no bytes, but a header may be asked for without them.
    have hlength (layer) (hlayer : layer ∈ (chain expected (captured.drop offset)).items) :
        0 < layer.length :=
      (chain_shaped expected (captured.drop offset) layer hlayer).length_pos
    rw [accepted_layerPieces_beyond _ (Nat.le_of_lt hbeyond) hlength,
      accepted_layerPieces_beyond _ (by rw [List.length_drop]; omega) hlength]
    rfl
  · have hlimit : captured.length = (captured.drop offset).length + offset := by
      rw [List.length_drop]
      omega
    have hpieces := layerPieces_shift 0 offset (chain expected (captured.drop offset)).items
    rw [Nat.zero_add] at hpieces
    rw [hlimit, hpieces, accepted_shift, widened_shift]

/-- A chain is recorded at an offset as its bytes are at offset zero. -/
theorem takes_recordChain {table : RecordTable} (h : table.Regular) (summary : Summary)
    {captured : Bytes} (hlimit : table.limit = captured.length) (offset : Nat)
    (expected : Expected) :
    table.Takes ((chainPlaces table.room expected (captured.drop offset)).map
        (Placement.shift offset))
      (recordChain table summary captured offset expected).1.table := by
  have htakes := takes_recordLayers h summary offset
    (chain_closed expected (captured.drop offset))
  rw [RecordTable.taken, hlimit, widened_chain] at htakes
  exact htakes

end Dissection

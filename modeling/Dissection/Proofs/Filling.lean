import Mathlib.Data.List.Infix
import Mathlib.Data.List.TakeWhile
import Dissection.Proofs.TableInvariant

/-!
Recording as filling. The layers of a frame ask for places one behind the other,
and the table takes those that come before the first that it has no room for or
that ends behind the captured bytes. `takes_recordLayers` says that this, with
each header widened over its trailers, is what recording does, although a refused
option does not end it at once.
-/

namespace Dissection

/-- The first byte behind a place. -/
def Placement.stop (place : Placement) : Nat :=
  place.offset + place.length

/-- The place of what a record stands for. -/
def Record.place (record : Record) : Placement :=
  ⟨record.id, record.start, record.size⟩

/-- The part that a place has in its layer. -/
inductive Role where
  | header
  | trailer
  | member
  deriving DecidableEq, Repr

/-- A place that a layer asks for, with the part that it has in the layer. -/
structure Piece where
  role : Role
  place : Placement
  deriving DecidableEq, Repr

/-- The pieces of entries laid end to end from an offset on. -/
def entryPieces (offset : Nat) : List Entry → List Piece
  | [] => []
  | entry :: rest =>
      match entry.finding with
      | .skipped _ => entryPieces (offset + entry.length) rest
      | .known id =>
          ⟨.member, id, offset, entry.length⟩ :: entryPieces (offset + entry.length) rest

/-- The pieces of what a header that begins at an offset carries. -/
def Members.pieces (members : Members) (offset : Nat) : List Piece :=
  entryPieces (offset + members.start) members.run.items

/-- The pieces of trailers laid end to end from an offset on, with their members. -/
def trailerPieces (offset : Nat) : List Trailer → List Piece
  | [] => []
  | trailer :: rest =>
      ⟨.trailer, trailer.id, offset, trailer.length⟩ ::
        (trailer.members.pieces offset ++ trailerPieces (offset + trailer.length) rest)

/-- The pieces of a layer behind its header. -/
def Layer.parts (layer : Layer) (offset : Nat) : List Piece :=
  layer.members.pieces offset ++
    trailerPieces (offset + layer.length) (layer.trailers.getD [])

/-- The pieces of a layer that begins at an offset. -/
def Layer.pieces (layer : Layer) (offset : Nat) : List Piece :=
  ⟨.header, layer.kind.id, offset, layer.length⟩ :: layer.parts offset

/-- The pieces of layers laid end to end from an offset on. -/
def layerPieces (offset : Nat) : List Layer → List Piece
  | [] => []
  | layer :: rest => layer.pieces offset ++ layerPieces (offset + layer.span) rest

/-- The pieces that are taken where `room` more are and none may end behind a
limit: those before the first that is refused. -/
def accepted (room limit : Nat) (pieces : List Piece) : List Piece :=
  (pieces.takeWhile fun piece => piece.place.stop ≤ limit).take room

/-- The length of the trailers before the next header. -/
def trailed : List Piece → Nat
  | [] => 0
  | ⟨.header, _⟩ :: _ => 0
  | ⟨.trailer, place⟩ :: rest => place.length + trailed rest
  | ⟨.member, _⟩ :: rest => trailed rest

/-- The places of pieces, each header widened over the trailers behind it. -/
def widened : List Piece → List Placement
  | [] => []
  | ⟨.header, place⟩ :: rest =>
      { place with length := place.length + trailed rest } :: widened rest
  | ⟨_, place⟩ :: rest => place :: widened rest

section Accepted

variable {room limit : Nat} {piece : Piece} {pieces behind : List Piece}

@[simp] theorem accepted_nil : accepted room limit [] = [] :=
  List.take_nil

@[simp] theorem accepted_zero : accepted 0 limit pieces = [] :=
  rfl

theorem accepted_cons_of_le (h : piece.place.stop ≤ limit) :
    accepted (room + 1) limit (piece :: pieces) = piece :: accepted room limit pieces := by
  simp [accepted, h]

theorem accepted_cons_of_lt (h : limit < piece.place.stop) :
    accepted room limit (piece :: pieces) = [] := by
  simp [accepted, Nat.not_le_of_lt h]

theorem accepted_front (room limit : Nat) (pieces : List Piece) :
    accepted room limit pieces <+: pieces :=
  (List.take_prefix _ _).trans (List.takeWhile_prefix _)

theorem stop_le_of_mem_accepted (h : piece ∈ accepted room limit pieces) :
    piece.place.stop ≤ limit := by
  simpa using List.mem_takeWhile_imp (List.mem_of_mem_take h)

theorem accepted_append (h : behind = [] ∨ ∀ piece ∈ pieces, piece.place.stop ≤ limit) :
    accepted room limit (pieces ++ behind) =
      accepted room limit pieces ++
        accepted (room - (accepted room limit pieces).length) limit behind := by
  rcases h with rfl | hfit
  · simp
  · have hall : pieces.takeWhile (fun piece => piece.place.stop ≤ limit) = pieces := by
      rw [List.takeWhile_eq_self_iff]
      simpa using hfit
    have hroom : room - (pieces.take room).length = room - pieces.length := by
      rw [List.length_take]
      omega
    rw [accepted, accepted, List.takeWhile_append_of_pos (by simpa using hfit), hall,
      hroom, List.take_append]
    rfl

theorem accepted_append_of_ne (h : accepted room limit pieces ≠ pieces) :
    accepted room limit (pieces ++ behind) = accepted room limit pieces := by
  unfold accepted at h ⊢
  rw [List.takeWhile_append]
  split
  · rename_i hlength
    have hall := (List.takeWhile_prefix fun piece : Piece =>
      decide (piece.place.stop ≤ limit)).eq_of_length hlength
    rw [hall] at h ⊢
    have hroom : room ≤ pieces.length := by
      by_contra hlong
      exact h (List.take_of_length_le (by omega))
    exact List.take_append_of_le_length hroom
  · rfl

theorem accepted_eq_of_append {otherRoom otherLimit : Nat}
    (h : accepted room limit pieces ++ accepted otherRoom otherLimit behind =
      pieces ++ behind) : accepted otherRoom otherLimit behind = behind := by
  have hlength := congrArg List.length h
  have hpieces := (accepted_front room limit pieces).length_le
  have haccepted := accepted_front otherRoom otherLimit behind
  have hbehind := haccepted.length_le
  simp only [List.length_append] at hlength
  exact haccepted.eq_of_length (by omega)

end Accepted

theorem trailed_append_header (pieces : List Piece) (place : Placement)
    (rest : List Piece) :
    trailed (pieces ++ ⟨.header, place⟩ :: rest) = trailed pieces := by
  induction pieces with
  | nil => rfl
  | cons piece pieces ih =>
      obtain ⟨role, place⟩ := piece
      cases role <;> simp [trailed, ih]

theorem widened_append_header (pieces : List Piece) (place : Placement)
    (rest : List Piece) :
    widened (pieces ++ ⟨.header, place⟩ :: rest) =
      widened pieces ++ widened (⟨.header, place⟩ :: rest) := by
  induction pieces with
  | nil => rfl
  | cons piece pieces ih =>
      obtain ⟨role, first⟩ := piece
      cases role <;> simp [widened, ih, trailed_append_header]

@[simp] theorem widened_length (pieces : List Piece) :
    (widened pieces).length = pieces.length := by
  induction pieces with
  | nil => rfl
  | cons piece pieces ih =>
      obtain ⟨role, place⟩ := piece
      cases role <;> simp [widened, ih]

theorem widened_map {α : Type} {field : Placement → α}
    (hfield : ∀ (place : Placement) (length : Nat), field { place with length } = field place)
    (pieces : List Piece) : (widened pieces).map field = pieces.map (field ·.place) := by
  induction pieces with
  | nil => rfl
  | cons piece pieces ih =>
      obtain ⟨role, place⟩ := piece
      cases role <;> simp [widened, ih, hfield]

theorem widened_eq_map {pieces : List Piece} (h : ∀ piece ∈ pieces, piece.role ≠ .header) :
    widened pieces = pieces.map Piece.place := by
  induction pieces with
  | nil => rfl
  | cons piece pieces ih =>
      rw [List.forall_mem_cons] at h
      obtain ⟨role, place⟩ := piece
      cases role with
      | header => exact absurd rfl h.1
      | trailer => simp [widened, ih h.2]
      | member => simp [widened, ih h.2]

theorem trailed_map_member {pieces : List Piece} (h : ∀ piece ∈ pieces, piece.role = .member) :
    trailed pieces = 0 := by
  induction pieces with
  | nil => rfl
  | cons piece pieces ih =>
      rw [List.forall_mem_cons] at h
      obtain ⟨role, place⟩ := piece
      obtain ⟨rfl, h⟩ := h
      exact ih h

theorem trailed_append {pieces behind : List Piece}
    (h : ∀ piece ∈ pieces, piece.role ≠ .header) :
    trailed (pieces ++ behind) = trailed pieces + trailed behind := by
  induction pieces with
  | nil => simp [trailed]
  | cons piece pieces ih =>
      rw [List.forall_mem_cons] at h
      obtain ⟨role, place⟩ := piece
      cases role with
      | header => exact absurd rfl h.1
      | trailer => simp [trailed, ih h.2, Nat.add_assoc]
      | member => simp [trailed, ih h.2]

end Dissection

import Dissection.Proofs.CutLayers
import Dissection.Proofs.DissectedPlaces
import Dissection.Proofs.Tally

namespace Dissection

/-- What the chain of bytes cut off behind `count` of them is to the chain of all. -/
structure ChainCurtails (count : Nat) (layers others : List Layer) : Prop where
  outline : layers.map Layer.outline <+: others.map Layer.outline
  pieces : ∀ offset, Extends (offset + count) (layerPieces offset layers)
    (layerPieces offset others)

theorem Layer.span_eq_of_pieces {layer whole : Layer}
    (h : ∀ offset, layer.pieces offset = whole.pieces offset) : layer.span = whole.span := by
  obtain ⟨hheader, hparts⟩ := List.cons.inj (h 0)
  rw [← layer.length_add_trailed 0, ← whole.length_add_trailed 0, hparts]
  rw [Piece.mk.injEq, Placement.mk.injEq] at hheader
  rw [hheader.2.2.2]

theorem Layer.Curtails.outline_eq {count : Nat} {layer whole : Layer}
    (h : layer.Curtails count whole) : layer.outline = whole.outline :=
  Prod.ext h.kind_eq h.depth_eq

theorem Layer.Curtails.last {count : Nat} {layer whole : Layer}
    (h : layer.Curtails count whole) (behind : List Layer) :
    ChainCurtails count [layer] (whole :: behind) := by
  refine ⟨?_, ?_⟩
  · rw [List.map_singleton, List.map_cons, h.outline_eq]
    exact ⟨behind.map Layer.outline, rfl⟩
  · intro offset
    rw [layerPieces, layerPieces, layerPieces, List.append_nil]
    exact (h.pieces offset).append_right _

theorem ChainCurtails.cons {count : Nat} {layer whole : Layer} {layers others : List Layer}
    (h : ChainCurtails (count - layer.span) layers others) (hspan : layer.span ≤ count)
    (houtline : layer.outline = whole.outline)
    (hpieces : ∀ offset, layer.pieces offset = whole.pieces offset) :
    ChainCurtails count (layer :: layers) (whole :: others) := by
  refine ⟨?_, ?_⟩
  · rw [List.map_cons, List.map_cons, houtline, List.cons_prefix_cons]
    exact ⟨rfl, h.outline⟩
  · intro offset
    have hbehind := h.pieces (offset + layer.span)
    rw [show offset + layer.span + (count - layer.span) = offset + count by omega] at hbehind
    rw [layerPieces, layerPieces, hpieces, ← Layer.span_eq_of_pieces hpieces]
    exact hbehind.append_left _

theorem Scans.chain_curtails {expected : Expected} {short : Bytes}
    {found : Scanned Layer Ending} (h : Scans chainStep .silent expected short found)
    {rest : Bytes} {count : Nat} (hshort : rest.take count = short) :
    ChainCurtails count found.items (chain expected rest).items := by
  induction h generalizing rest count with
  | stop _ =>
      exact ⟨List.nil_prefix, fun offset => extends_of_front List.nil_prefix⟩
  | last hmove _ =>
      subst hshort
      obtain ⟨whole, after, hwhole, hlayer, _⟩ := (chainStep_eq_take_iff.mp hmove).2.of_take
      obtain ⟨others, hothers⟩ :=
        scan_items_of_take .silent chainStep_advances hwhole.chainStep_eq
      rw [chain, hothers]
      exact hlayer.last others
  | take hmove hsize hbehind ih =>
      subst hshort
      obtain ⟨rfl, hfinds⟩ := chainStep_eq_take_iff.mp hmove
      obtain ⟨whole, after, hwhole, hlayer, hnext⟩ := hfinds.of_take
      rw [List.length_take] at hsize
      rcases hnext with ⟨ending, rfl⟩ | hbeyond | ⟨hpieces, rfl⟩
      · obtain ⟨others, hothers⟩ :=
          scan_items_of_take .silent chainStep_advances hwhole.chainStep_eq
        rw [Scanned.cons_items, hbehind.items_eq_nil_of_nothing, chain, hothers]
        exact hlayer.last others
      · omega
      · have hspan := Layer.span_eq_of_pieces hpieces
        rw [chain, scan_of_take .silent chainStep_advances hwhole.chainStep_eq (by omega),
          Scanned.cons_items, Scanned.cons_items, ← hspan]
        exact (ih List.drop_take.symm).cons (by omega) hlayer.outline_eq hpieces

/-- The chain of bytes cut off begins as the chain of all of them does. -/
theorem chain_curtails (expected : Expected) (rest : Bytes) (count : Nat) :
    ChainCurtails count (chain expected (rest.take count)).items (chain expected rest).items :=
  (scans_scan chainStep_advances expected (rest.take count)).chain_curtails rfl

theorem front_takeWhile {front pieces : List Piece} {limit : Nat} (h : front <+: pieces)
    (hlimit : ∀ piece ∈ front, piece.place.stop ≤ limit) :
    front <+: pieces.takeWhile fun piece => piece.place.stop ≤ limit := by
  obtain ⟨behind, rfl⟩ := h
  rw [List.takeWhile_append_of_pos (by simpa using hlimit)]
  exact List.prefix_append _ _

theorem accepted_framePieces_front (datalink : Datalink) (bytes : Bytes) (room : Nat)
    {count limit : Nat} (h : count ≤ limit) :
    accepted room count (framePieces datalink (bytes.take count)) <+:
      accepted room limit (framePieces datalink bytes) := by
  have hextends := (chain_curtails (.ethernet datalink) bytes count).pieces 0
  rw [Nat.zero_add] at hextends
  have hbefore : ∀ piece ∈ (framePieces datalink (bytes.take count)).takeWhile
      (fun piece => piece.place.stop ≤ count), piece.place.stop ≤ count := by
    intro piece hpiece
    simpa using List.mem_takeWhile_imp hpiece
  have hfront := hextends _ (List.takeWhile_prefix _) hbefore
  exact (front_takeWhile hfront fun piece hpiece => (hbefore piece hpiece).trans h).take room

end Dissection

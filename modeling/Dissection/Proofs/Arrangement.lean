import Dissection.Proofs.FillingRecords

namespace Dissection

/-- Places in order and disjoint, from `start` on and not beyond `stop`. -/
structure Apart (start stop : Nat) (places : List Placement) : Prop where
  within : ∀ place ∈ places, start ≤ place.offset ∧ place.stop ≤ stop
  ordered : places.Pairwise fun place next => place.stop ≤ next.offset

/-- Places that lie end to end from `start` to `stop`. -/
def Tiled (start stop : Nat) : List Placement → Prop
  | [] => start = stop
  | place :: rest => place.offset = start ∧ Tiled place.stop stop rest

theorem Tiled.total_length {start stop : Nat} {places : List Placement}
    (h : Tiled start stop places) : stop = start + total Placement.length places := by
  induction places generalizing start with
  | nil => exact h.symm
  | cons place rest ih =>
      obtain ⟨rfl, hrest⟩ := h
      rw [ih hrest, Placement.stop, total_cons, Nat.add_assoc]

/-- Places in groups, each of them a head and what the head owns. -/
inductive Grouped (isHead : Placement → Bool) (owns : Placement → List Placement → Prop) :
    List Placement → Prop
  | nil : Grouped isHead owns []
  | group {head : Placement} {owned rest : List Placement} (hhead : isHead head = true)
      (howned : ∀ place ∈ owned, isHead place = false) (howns : owns head owned)
      (hrest : Grouped isHead owns rest) : Grouped isHead owns (head :: (owned ++ rest))

theorem filter_group {isHead : Placement → Bool} {head : Placement}
    {owned : List Placement} (hhead : isHead head = true)
    (howned : ∀ place ∈ owned, isHead place = false) (rest : List Placement) :
    (head :: (owned ++ rest)).filter isHead = head :: rest.filter isHead := by
  have hnone : owned.filter isHead = [] := by
    rw [List.filter_eq_nil_iff]
    simpa using howned
  rw [List.filter_cons_of_pos hhead, List.filter_append, hnone, List.nil_append]

/-- Pieces whose offsets rise from `start` on and stay below `stop`. -/
structure Rising (start stop : Nat) (pieces : List Piece) : Prop where
  within : ∀ piece ∈ pieces, start ≤ piece.place.offset ∧ piece.place.offset < stop
  ordered : pieces.Pairwise fun piece next => piece.place.offset < next.place.offset

theorem Apart.sublist {start stop : Nat} {places others : List Placement}
    (h : Apart start stop others) (hsublist : places.Sublist others) :
    Apart start stop places :=
  ⟨fun place hplace => h.within place (hsublist.subset hplace), h.ordered.sublist hsublist⟩

theorem rising_nil (start stop : Nat) : Rising start stop [] := by
  refine ⟨?_, .nil⟩
  intro piece hpiece
  cases hpiece

theorem Rising.append {start mid stop : Nat} {pieces behind : List Piece}
    (h : Rising start mid pieces) (hbehind : Rising mid stop behind)
    (hstart : start ≤ mid) (hstop : mid ≤ stop) : Rising start stop (pieces ++ behind) := by
  refine ⟨?_, ?_⟩
  · intro piece hpiece
    rcases List.mem_append.mp hpiece with hpiece | hpiece
    · have := h.within piece hpiece
      omega
    · have := hbehind.within piece hpiece
      omega
  · rw [List.pairwise_append]
    refine ⟨h.ordered, hbehind.ordered, ?_⟩
    intro piece hpiece next hnext
    have := h.within piece hpiece
    have := hbehind.within next hnext
    omega

theorem Rising.cons {start stop : Nat} {piece : Piece} {pieces : List Piece}
    (h : Rising (piece.place.offset + 1) stop pieces) (hstart : start ≤ piece.place.offset)
    (hstop : piece.place.offset < stop) : Rising start stop (piece :: pieces) := by
  refine ⟨?_, ?_⟩
  · rw [List.forall_mem_cons]
    refine ⟨⟨hstart, hstop⟩, ?_⟩
    intro next hnext
    have := h.within next hnext
    omega
  · rw [List.pairwise_cons]
    refine ⟨?_, h.ordered⟩
    intro next hnext
    have := h.within next hnext
    omega

theorem Rising.widen {start stop first last : Nat} {pieces : List Piece}
    (h : Rising start stop pieces) (hfirst : first ≤ start) (hlast : stop ≤ last) :
    Rising first last pieces := by
  refine ⟨?_, h.ordered⟩
  intro piece hpiece
  have := h.within piece hpiece
  omega

theorem prefix_append_split {α : Type} {front pieces behind : List α}
    (h : front <+: pieces ++ behind) :
    ∃ first second, front = first ++ second ∧ first <+: pieces ∧ second <+: behind ∧
      (second = [] ∨ first = pieces) := by
  obtain ⟨tail, htail⟩ := h
  rcases List.append_eq_append_iff.mp htail with ⟨missing, hpieces, _⟩ | ⟨more, hfront, hbehind⟩
  · exact ⟨front, [], (List.append_nil _).symm, ⟨missing, hpieces.symm⟩, List.nil_prefix, .inl rfl⟩
  · exact ⟨pieces, more, hfront, List.prefix_rfl, ⟨tail, hbehind.symm⟩, .inr rfl⟩

/-- The front of the pieces of a chain is empty or begins with the header of its first
layer; where it goes on behind the layer, it holds the layer whole. -/
theorem front_layerPieces_cases {layer : Layer} {rest : List Layer} {front : List Piece}
    {offset : Nat} (h : front <+: layerPieces offset (layer :: rest)) :
    front = [] ∨ ∃ parts behind,
      front = ⟨.header, layer.kind.id, offset, layer.length⟩ :: (parts ++ behind) ∧
        parts <+: layer.parts offset ∧ behind <+: layerPieces (offset + layer.span) rest ∧
          (behind = [] ∨ parts = layer.parts offset) := by
  obtain ⟨pieces, behind, rfl, hpieces, hbehind, hwhole⟩ := prefix_append_split h
  cases pieces with
  | nil =>
      rcases hwhole with rfl | hwhole
      · exact .inl rfl
      · cases hwhole
  | cons header parts =>
      obtain ⟨rfl, hparts⟩ := List.cons_prefix_cons.mp hpieces
      exact .inr ⟨parts, behind, rfl, hparts, hbehind, hwhole.imp_right fun heq =>
        (List.cons.inj heq).2⟩

theorem widened_front {layer : Layer} {layers : List Layer} {parts behind : List Piece}
    {offset stop : Nat} (place : Placement) (hparts : parts <+: layer.parts offset)
    (hbehind : behind <+: layerPieces stop layers) :
    widened (⟨.header, place⟩ :: (parts ++ behind)) =
      { place with length := place.length + trailed parts } ::
        (parts.map Piece.place ++ widened behind) := by
  rw [← List.cons_append, widened_append_front _ hbehind, widened, widened_eq_map]
  · rfl
  · exact fun piece hpiece => Layer.role_of_mem_parts (hparts.subset hpiece)

theorem entryPieces_append (offset : Nat) (entries behind : List Entry) :
    entryPieces offset (entries ++ behind) = entryPieces offset entries ++
      entryPieces (offset + total Entry.length entries) behind := by
  induction entries generalizing offset with
  | nil => rfl
  | cons entry rest ih =>
      rw [List.cons_append, entryPieces, entryPieces, ih, total_cons,
        Nat.add_assoc]
      cases entry.finding <;> rfl

theorem trailerPieces_append (offset : Nat) (trailers behind : List Trailer) :
    trailerPieces offset (trailers ++ behind) = trailerPieces offset trailers ++
      trailerPieces (offset + total Trailer.length trailers) behind := by
  induction trailers generalizing offset with
  | nil => rfl
  | cons trailer rest ih =>
      rw [List.cons_append, trailerPieces, trailerPieces, ih, total_cons,
        List.cons_append, List.append_assoc, Nat.add_assoc]

section Entries

variable {entries : List Entry}

theorem apart_entryPieces (offset : Nat) (entries : List Entry) :
    Apart offset (offset + total Entry.length entries)
      ((entryPieces offset entries).map Piece.place) := by
  refine ⟨?_, ?_⟩
  · intro place hplace
    obtain ⟨piece, hpiece, rfl⟩ := List.mem_map.mp hplace
    exact (mem_entryPieces_bounds hpiece).2
  · induction entries generalizing offset with
    | nil => exact .nil
    | cons entry rest ih =>
        unfold entryPieces
        split
        · exact ih _
        · rw [List.map_cons, List.pairwise_cons]
          refine ⟨?_, ih _⟩
          intro next hnext
          obtain ⟨piece, hpiece, rfl⟩ := List.mem_map.mp hnext
          exact (mem_entryPieces_bounds hpiece).2.1

theorem mem_entryPieces_known {offset : Nat} {piece : Piece}
    (h : piece ∈ entryPieces offset entries) :
    ∃ entry ∈ entries, entry.finding = .known piece.place.id := by
  induction entries generalizing offset with
  | nil => cases h
  | cons entry rest ih =>
      unfold entryPieces at h
      split at h
      · obtain ⟨found, hfound, hknown⟩ := ih h
        exact ⟨found, List.mem_cons_of_mem _ hfound, hknown⟩
      · rename_i id hid
        rcases List.mem_cons.mp h with rfl | h
        · exact ⟨entry, List.mem_cons_self, hid⟩
        · obtain ⟨found, hfound, hknown⟩ := ih h
          exact ⟨found, List.mem_cons_of_mem _ hfound, hknown⟩

theorem rising_entryPieces (offset : Nat) (h : ∀ entry ∈ entries, 0 < entry.length) :
    Rising offset (offset + total Entry.length entries) (entryPieces offset entries) := by
  induction entries generalizing offset with
  | nil => exact rising_nil _ _
  | cons entry rest ih =>
      rw [List.forall_mem_cons] at h
      have hrest := ih (offset + entry.length) h.2
      rw [total_cons, ← Nat.add_assoc]
      unfold entryPieces
      split
      · exact hrest.widen (Nat.le_add_right _ _) (Nat.le_refl _)
      · refine .cons (hrest.widen ?_ (Nat.le_refl _)) (Nat.le_refl _) ?_
        · exact Nat.add_le_add_left h.1 offset
        · dsimp only
          omega

end Entries

/-- Entries that are not empty, behind the first byte of what carries them. -/
structure Members.Spaced (members : Members) : Prop where
  start_pos : members.run.items = [] ∨ 0 < members.start
  length_pos : ∀ entry ∈ members.run.items, 0 < entry.length

theorem Members.spaced_none : Members.none.Spaced := by
  refine ⟨.inl rfl, ?_⟩
  intro entry hentry
  cases hentry

theorem Members.Spaced.rising {members : Members} (h : members.Spaced) {offset stop : Nat}
    (hstop : offset + members.start + total Entry.length members.run.items ≤ stop) :
    Rising (offset + 1) stop (members.pieces offset) := by
  unfold Members.pieces
  rcases h.start_pos with hitems | hstart
  · rw [hitems]
    exact rising_nil _ _
  · exact (rising_entryPieces _ h.length_pos).widen (Nat.add_le_add_left hstart offset) hstop

theorem Members.Spaced.rising_of_within {members : Members} {length : Nat}
    (h : members.Spaced) (hwithin : members.Within length) (offset : Nat) :
    Rising (offset + 1) (offset + length) (members.pieces offset) := by
  apply h.rising
  unfold Members.Within at hwithin
  omega

/-- A trailer that is not empty, with members in it. -/
structure Trailer.Spaced (trailer : Trailer) : Prop where
  length_pos : 0 < trailer.length
  members : trailer.members.Spaced
  within : trailer.members.Within trailer.length

theorem rising_trailerPieces {trailers : List Trailer} (offset : Nat)
    (h : ∀ trailer ∈ trailers, trailer.Spaced) :
    Rising offset (offset + total Trailer.length trailers)
      (trailerPieces offset trailers) := by
  induction trailers generalizing offset with
  | nil => exact rising_nil _ _
  | cons trailer rest ih =>
      rw [List.forall_mem_cons] at h
      obtain ⟨⟨hpos, hspaced, hwithin⟩, h⟩ := h
      rw [total_cons, ← Nat.add_assoc]
      refine .cons ?_ (Nat.le_refl _) ?_
      · exact (hspaced.rising_of_within hwithin offset).append (ih _ h)
          (Nat.add_le_add_left hpos offset) (Nat.le_add_right _ _)
      · dsimp only
        omega

/-- A layer that is not empty, with members and trailers that are not. -/
structure Layer.Spaced (layer : Layer) : Prop where
  length_pos : 0 < layer.length
  members : layer.members.Spaced
  trailers : ∀ trailer ∈ layer.trailers.getD [], trailer.Spaced

theorem Layer.Spaced.rising_of_within {layer : Layer} (h : layer.Spaced)
    (hwithin : layer.members.Within layer.length) (offset : Nat) :
    Rising offset (offset + layer.span) (layer.pieces offset) := by
  have hmembers := h.members.rising_of_within hwithin offset
  have htrailers := rising_trailerPieces (offset + layer.length) h.trailers
  have hspan := Layer.span_pos h.length_pos
  rw [Layer.span, ← Nat.add_assoc] at *
  refine .cons (hmembers.append htrailers ?_ (Nat.le_add_right _ _)) (Nat.le_refl _) ?_
  · exact Nat.add_le_add_left h.length_pos offset
  · dsimp only
    omega

theorem Layer.Spaced.exists_rising {layer : Layer} (h : layer.Spaced)
    (hclosed : layer.Closed) (offset : Nat) :
    ∃ stop, Rising offset stop (layer.pieces offset) := by
  rcases hclosed.members with hlast | hwithin
  · have hmembers := h.members.rising (Nat.le_add_right
      (offset + layer.members.start + total Entry.length layer.members.run.items)
      (offset + 1))
    rw [← Layer.parts_eq_members hlast] at hmembers
    refine ⟨_, Rising.cons hmembers (Nat.le_refl offset) ?_⟩
    dsimp only
    omega
  · exact ⟨_, h.rising_of_within hwithin offset⟩

theorem rising_layerPieces {layers : List Layer} (offset : Nat)
    (hspaced : ∀ layer ∈ layers, layer.Spaced) (hclosed : ClosedChain layers) :
    ∃ stop, Rising offset stop (layerPieces offset layers) := by
  induction layers generalizing offset with
  | nil => exact ⟨offset, rising_nil _ _⟩
  | cons layer rest ih =>
      rw [List.forall_mem_cons] at hspaced
      obtain ⟨hlayer, hlast, hrest⟩ := hclosed
      rw [layerPieces]
      rcases hlast with rfl | hwithin
      · rw [layerPieces, List.append_nil]
        exact hspaced.1.exists_rising hlayer offset
      · obtain ⟨stop, hrising⟩ := ih (offset + layer.span) hspaced.2 hrest
        have hbehind := hrising.widen (Nat.le_refl _) (Nat.le_add_right stop (offset + layer.span))
        exact ⟨_, (hspaced.1.rising_of_within hwithin offset).append hbehind
          (Nat.le_add_right _ _) (Nat.le_add_left _ _)⟩

theorem trailed_trailerPieces (offset : Nat) (trailers : List Trailer) :
    trailed (trailerPieces offset trailers) = total Trailer.length trailers := by
  induction trailers generalizing offset with
  | nil => rfl
  | cons trailer rest ih =>
      rw [trailerPieces, trailed, trailed_append_front (List.prefix_refl _), ih, total_cons]

theorem Layer.length_add_trailed (layer : Layer) (offset : Nat) :
    layer.length + trailed (layer.parts offset) = layer.span := by
  rw [Layer.parts, trailed_append_front (List.prefix_refl _), trailed_trailerPieces, Layer.span]

end Dissection

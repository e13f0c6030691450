import Dissection.Proofs.FillingRecords

namespace Dissection

/-- Whether a record is asked for the entry. -/
def Entry.isKnown (entry : Entry) : Bool :=
  match entry.finding with
  | .known _ => true
  | .skipped _ => false

/-- The count of pieces of what a header carries. -/
def Members.size (members : Members) : Nat :=
  members.run.items.countP Entry.isKnown

/-- The count of pieces of a trailer, with those that it carries. -/
def Trailer.size (trailer : Trailer) : Nat :=
  trailer.members.size + 1

/-- The count of pieces of a layer. -/
def Layer.size (layer : Layer) : Nat :=
  layer.members.size + total Trailer.size (layer.trailers.getD []) + 1

theorem length_entryPieces (offset : Nat) (entries : List Entry) :
    (entryPieces offset entries).length = entries.countP Entry.isKnown := by
  induction entries generalizing offset with
  | nil => rfl
  | cons entry rest ih =>
      rw [entryPieces, List.countP_cons, Entry.isKnown]
      cases entry.finding with
      | known id => simp [ih]
      | skipped note => simp [ih]

@[simp] theorem Members.length_pieces (members : Members) (offset : Nat) :
    (members.pieces offset).length = members.size :=
  length_entryPieces _ _

@[simp] theorem length_trailerPieces (offset : Nat) (trailers : List Trailer) :
    (trailerPieces offset trailers).length = total Trailer.size trailers := by
  induction trailers generalizing offset with
  | nil => rfl
  | cons trailer rest ih =>
      rw [trailerPieces, List.length_cons, List.length_append, trailer.members.length_pieces,
        ih, total_cons, Trailer.size]
      omega

@[simp] theorem Layer.length_pieces (layer : Layer) (offset : Nat) :
    (layer.pieces offset).length = layer.size := by
  rw [pieces, parts, List.length_cons, List.length_append, layer.members.length_pieces,
    length_trailerPieces, size]

/-- What the last Fragment header says of those among the first `count` pieces of
trailers. -/
def lastFragment : List Trailer → Nat → Option Fragment
  | [], _ => none
  | _ :: _, 0 => none
  | trailer :: rest, count + 1 =>
      lastFragment rest (count - trailer.members.size) <|> trailer.fragment

/-- The facts that the header of a layer establishes. A nested header establishes
none. -/
def Layer.facts (layer : Layer) : List Mark :=
  if layer.depth = 0 then layer.marks else []

/-- The facts that the first `count` pieces of a layer establish. -/
def Layer.shown (layer : Layer) (count : Nat) : List Mark :=
  if count = 0 then []
  else layer.facts ++
    if layer.depth = 0 then
      ((lastFragment (layer.trailers.getD []) (count - 1 - layer.members.size)).map
        .fragment).toList
    else []

/-- The facts that the first `count` pieces of layers establish. -/
def shown : List Layer → Nat → List Mark
  | [], _ => []
  | layer :: rest, count => layer.shown (min count layer.size) ++ shown rest (count - layer.size)

@[simp] theorem shown_zero (layers : List Layer) : shown layers 0 = [] := by
  induction layers with
  | nil => rfl
  | cons layer rest ih => rw [shown, Nat.zero_sub, Nat.zero_min, ih, Layer.shown, if_pos rfl]; rfl

namespace Summary

@[simp] theorem addAll_nil (summary : Summary) : summary.addAll [] = summary :=
  rfl

theorem addAll_append (summary : Summary) (marks behind : List Mark) :
    summary.addAll (marks ++ behind) = (summary.addAll marks).addAll behind :=
  List.foldl_append

theorem addLayer_marks (summary : Summary) (layer : Layer) :
    summary.addLayer layer layer.marks = summary.addAll layer.facts := by
  unfold addLayer Layer.facts
  split <;> rfl

end Summary

theorem take_accepted_append (room limit : Nat) (pieces behind : List Piece) :
    (accepted room limit (pieces ++ behind)).take pieces.length = accepted room limit pieces := by
  rw [accepted, accepted, List.take_take, Nat.min_comm, ← List.take_take, List.takeWhile_append]
  split
  · rename_i hall
    rw [(List.takeWhile_prefix _).eq_of_length hall, List.take_left]
  · rw [List.take_of_length_le (List.takeWhile_prefix _).length_le]

namespace RecordTable

variable {table mid : RecordTable}

theorem length_taken_le (table : RecordTable) (pieces : List Piece) :
    (table.taken pieces).length ≤ table.room := by
  rw [taken, accepted, List.length_take]
  exact Nat.min_le_left _ _

theorem Takes.length_taken_behind {places : List Placement} {pieces : List Piece}
    (behind : List Piece) (h : table.Takes places mid)
    (hplaces : places.length = (table.taken pieces).length)
    (hfit : ∀ piece ∈ pieces, piece.place.stop ≤ table.limit) :
    (table.taken (pieces ++ behind)).length - pieces.length = (mid.taken behind).length := by
  have hroom := h.room_eq
  have hbehind := mid.length_taken_le behind
  have hall : pieces.takeWhile (fun piece => piece.place.stop ≤ table.limit) = pieces := by
    rw [List.takeWhile_eq_self_iff]
    simpa using hfit
  have hlength : (table.taken pieces).length = min table.room pieces.length := by
    rw [taken, accepted, hall, List.length_take]
  rw [h.taken_append behind hplaces (.inr hfit), List.length_append]
  omega

theorem fragment_recordTrailers (h : table.Regular) (offset : Nat) {trailers : List Trailer}
    (hwithin : ∀ trailer ∈ trailers, trailer.members.Within trailer.length) :
    (table.recordTrailers offset trailers).fragment =
      lastFragment trailers (table.taken (trailerPieces offset trailers)).length := by
  induction trailers generalizing table offset with
  | nil => rfl
  | cons trailer rest ih =>
      rw [List.forall_mem_cons] at hwithin
      unfold recordTrailers
      dsimp only
      cases hadd : table.add? ⟨trailer.id, offset, trailer.length⟩ with
      | none =>
          rw [trailerPieces, taken_of_none h hadd]
          rfl
      | some added =>
          have htakes := takes_add? h hadd
          have hmembers := takes_recordMembers htakes.regular offset trailer.members
          have hinside : ∀ piece ∈ trailer.members.pieces offset,
              piece.place.stop ≤ added.limit := by
            intro piece hpiece
            rw [htakes.limit_eq]
            exact (Members.stop_le_of_mem_pieces hwithin.1 hpiece).trans (stop_le_of_add? hadd)
          have hbehind := hmembers.length_taken_behind
            (trailerPieces (offset + trailer.length) rest) (List.length_map _) hinside
          rw [trailer.members.length_pieces] at hbehind
          dsimp only
          rw [ih hmembers.regular _ hwithin.2, trailerPieces, taken_of_some h hadd,
            List.length_cons, lastFragment, hbehind]

theorem summary_recordLayer (h : table.Regular) (summary : Summary) (offset : Nat)
    {layer : Layer} (hclosed : layer.Closed) :
    (recordLayer table summary offset layer).summary =
      summary.addAll (layer.shown (table.taken (layer.pieces offset)).length) := by
  unfold recordLayer
  dsimp only
  cases hadd : table.add? ⟨layer.kind.id, offset, layer.length⟩ with
  | none =>
      rw [Layer.pieces, taken_of_none h hadd]
      rfl
  | some added =>
      have htakes := takes_add? h hadd
      rw [Layer.pieces, taken_of_some h hadd, List.length_cons, Layer.shown,
        if_neg (Nat.succ_ne_zero _), Nat.add_sub_cancel, Summary.addAll_append,
        ← Summary.addLayer_marks]
      cases htrailers : layer.trailers with
      | none =>
          show summary.addLayer layer layer.marks = Summary.addAll _ (if _ then [] else [])
          rw [ite_self]
          rfl
      | some trailers =>
          have hmembers := takes_recordMembers htakes.regular offset layer.members
          obtain ⟨hwithin, htrailed⟩ := hclosed.within htrailers
          have hinside : ∀ piece ∈ layer.members.pieces offset,
              piece.place.stop ≤ added.limit := by
            intro piece hpiece
            rw [htakes.limit_eq]
            exact (Members.stop_le_of_mem_pieces hwithin hpiece).trans (stop_le_of_add? hadd)
          have hbehind := hmembers.length_taken_behind
            (trailerPieces (offset + layer.length) trailers) (List.length_map _) hinside
          rw [layer.members.length_pieces] at hbehind
          rw [Layer.parts, htrailers, Option.getD_some, hbehind,
            ← fragment_recordTrailers hmembers.regular _ htrailed]
          generalize summary.addLayer layer layer.marks = marked
          show marked.addLayer layer _ = _
          unfold Summary.addLayer
          split <;> rfl

end RecordTable

/-- What a chain adds to the summary is what its pieces that are taken show. -/
theorem summary_recordLayers {table : RecordTable} (h : table.Regular) (summary : Summary)
    (offset : Nat) {layers : List Layer} (hclosed : ClosedChain layers) :
    (recordLayers table summary offset layers).summary =
      summary.addAll (shown layers (table.taken (layerPieces offset layers)).length) := by
  induction layers generalizing table summary offset with
  | nil => rfl
  | cons layer rest ih =>
      obtain ⟨hlayer, hlast, hrest⟩ := hclosed
      have hlays := RecordTable.lays_recordLayer h summary offset hlayer
      have hsummary := RecordTable.summary_recordLayer h summary offset hlayer
      have hfront : min (table.taken (layerPieces offset (layer :: rest))).length layer.size =
          (table.taken (layer.pieces offset)).length := by
        rw [Nat.min_comm, ← layer.length_pieces offset, ← List.length_take, layerPieces,
          RecordTable.taken, take_accepted_append]
        rfl
      unfold recordLayers
      dsimp only
      rw [shown, hfront, Summary.addAll_append, ← hsummary]
      split
      · rename_i hstopped
        have hle := (table.taken_front (layer.pieces offset)).length_le
        rw [hlays.taken_of_stopped hstopped, Nat.sub_eq_zero_of_le (by simpa using hle),
          shown_zero]
        rfl
      · rename_i stop hreached
        dsimp only
        rw [ih hlays.takes.regular _ stop hrest]
        rcases hlast with rfl | hwithin
        · rfl
        · obtain ⟨rfl, hfit⟩ := hlays.reached stop hreached
          rw [layerPieces, ← hlays.takes.length_taken_behind _ (widened_length _)
            (hfit hwithin), layer.length_pieces]

/-- The headers among some pieces. -/
def headers (pieces : List Piece) : Nat :=
  pieces.countP fun piece => piece.role = .header

theorem headers_append (pieces behind : List Piece) :
    headers (pieces ++ behind) = headers pieces + headers behind :=
  List.countP_append

theorem headers_eq_zero {pieces : List Piece} (h : ∀ piece ∈ pieces, piece.role ≠ .header) :
    headers pieces = 0 := by
  rw [headers, List.countP_eq_zero]
  simpa using h

theorem headers_take_cons (count offset : Nat) (layer : Layer) (rest : List Layer) :
    headers ((layerPieces offset (layer :: rest)).take (count + 1)) =
      headers ((layerPieces (offset + layer.span) rest).take (count + 1 - layer.size)) + 1 := by
  have hparts : headers ((layer.parts offset).take count) = 0 :=
    headers_eq_zero fun piece hpiece => Layer.role_of_mem_parts (List.mem_of_mem_take hpiece)
  rw [layerPieces, List.take_append, headers_append, layer.length_pieces, Layer.pieces,
    List.take_succ_cons, headers, List.countP_cons, ← headers, hparts, Nat.add_comm]
  rfl

namespace Summary

/-- The summary without what it says of fragments. -/
def unfragmented (summary : Summary) : Summary :=
  { summary with fragment := .none }

theorem unfragmented_addAll (summary : Summary) (marks : List Mark) :
    (summary.addAll marks).unfragmented = (summary.unfragmented.addAll marks).unfragmented := by
  induction marks generalizing summary with
  | nil => rfl
  | cons mark rest ih =>
      change ((summary.add mark).addAll rest).unfragmented =
        ((summary.unfragmented.add mark).addAll rest).unfragmented
      rw [ih, ih (summary.unfragmented.add mark)]
      cases mark <;> rfl

end Summary

theorem Layer.unfragmented_shown (summary : Summary) (layer : Layer) {count : Nat}
    (h : count ≠ 0) :
    (summary.addAll (layer.shown count)).unfragmented =
      (summary.addAll layer.facts).unfragmented := by
  rw [Layer.shown, if_neg h, Summary.addAll_append]
  split
  · cases lastFragment (layer.trailers.getD []) (count - 1 - layer.members.size) <;> rfl
  · rfl

theorem unfragmented_shown (summary : Summary) (offset : Nat) (layers : List Layer)
    (count : Nat) :
    (summary.addAll (shown layers count)).unfragmented =
      (summary.addAll ((layers.take (headers ((layerPieces offset layers).take count))).flatMap
        Layer.facts)).unfragmented := by
  induction layers generalizing summary offset count with
  | nil => rw [List.take_nil]; rfl
  | cons layer rest ih =>
      cases count with
      | zero => rw [shown_zero]; rfl
      | succ count =>
          have hcount : min (count + 1) layer.size ≠ 0 := by
            unfold Layer.size
            omega
          rw [headers_take_cons, List.take_succ_cons, List.flatMap_cons, shown,
            Summary.addAll_append, Summary.addAll_append, Summary.unfragmented_addAll,
            layer.unfragmented_shown summary hcount, ← Summary.unfragmented_addAll,
            ih _ (offset + layer.span)]

theorem unfragmented_recordLayers {table : RecordTable} (h : table.Regular)
    (summary : Summary) (offset : Nat) {layers : List Layer} (hclosed : ClosedChain layers) :
    (recordLayers table summary offset layers).summary.unfragmented =
      (summary.addAll ((layers.take (headers (table.taken (layerPieces offset layers)))).flatMap
        Layer.facts)).unfragmented := by
  have htaken := List.prefix_iff_eq_take.mp (table.taken_front (layerPieces offset layers))
  rw [summary_recordLayers h summary offset hclosed, unfragmented_shown summary offset,
    ← htaken]

end Dissection

import Dissection.Proofs.Filling

namespace Dissection

/-- The entries lie within the first `length` bytes of what carries them. -/
def Members.Within (members : Members) (length : Nat) : Prop :=
  members.start + total Entry.length members.run.items ≤ length

/-- What a layer carries lies within it, unless nothing follows; and so with its
trailers. -/
structure Layer.Closed (layer : Layer) : Prop where
  members : layer.trailers = none ∨ layer.members.Within layer.length
  trailers : ∀ trailer ∈ layer.trailers.getD [], trailer.members.Within trailer.length

/-- Every layer is closed, and only the last may carry entries behind itself. -/
def ClosedChain : List Layer → Prop
  | [] => True
  | layer :: rest =>
      layer.Closed ∧ (rest = [] ∨ layer.members.Within layer.length) ∧ ClosedChain rest

theorem Layer.Closed.within {layer : Layer} (h : layer.Closed) {trailers : List Trailer}
    (htrailers : layer.trailers = some trailers) :
    layer.members.Within layer.length ∧
      ∀ trailer ∈ trailers, trailer.members.Within trailer.length := by
  have hall := h.trailers
  rw [htrailers, Option.getD_some] at hall
  exact ⟨h.members.resolve_left (by simp [htrailers]), hall⟩

theorem mem_entryPieces_bounds {entries : List Entry} {offset : Nat} {piece : Piece}
    (h : piece ∈ entryPieces offset entries) :
    piece.role = .member ∧ offset ≤ piece.place.offset ∧
      piece.place.stop ≤ offset + total Entry.length entries := by
  induction entries generalizing offset with
  | nil => cases h
  | cons entry rest ih =>
      unfold entryPieces at h
      rw [total_cons]
      split at h
      · obtain ⟨hrole, hoffset, hstop⟩ := ih h
        exact ⟨hrole, by omega, by omega⟩
      · rcases List.mem_cons.mp h with rfl | h
        · refine ⟨rfl, Nat.le_refl _, ?_⟩
          simp only [Placement.stop]
          omega
        · obtain ⟨hrole, hoffset, hstop⟩ := ih h
          exact ⟨hrole, by omega, by omega⟩

theorem mem_trailerPieces_role {trailers : List Trailer} {offset : Nat} {piece : Piece}
    (h : piece ∈ trailerPieces offset trailers) : piece.role ≠ .header := by
  induction trailers generalizing offset with
  | nil => cases h
  | cons trailer rest ih =>
      unfold trailerPieces at h
      rcases List.mem_cons.mp h with rfl | h
      · simp
      · rcases List.mem_append.mp h with h | h
        · simp [(mem_entryPieces_bounds h).1]
        · exact ih h

theorem Layer.role_of_mem_parts {layer : Layer} {offset : Nat} {piece : Piece}
    (h : piece ∈ layer.parts offset) : piece.role ≠ .header := by
  rcases List.mem_append.mp h with h | h
  · simp [(mem_entryPieces_bounds h).1]
  · exact mem_trailerPieces_role h

theorem Layer.parts_eq_members {layer : Layer} (h : layer.trailers = none) (offset : Nat) :
    layer.parts offset = layer.members.pieces offset := by
  rw [Layer.parts, h, Option.getD_none, trailerPieces, List.append_nil]

namespace RecordTable

/-- The places of the records of a table. -/
def places (table : RecordTable) : List Placement :=
  table.records.map Record.place

/-- The count of records for which there still is room. -/
def room (table : RecordTable) : Nat :=
  capacity - table.size

/-- The pieces that a table takes. -/
def taken (table : RecordTable) (pieces : List Piece) : List Piece :=
  accepted table.room table.limit pieces

/-- A table as a packet may leave it. -/
structure Regular (table : RecordTable) : Prop where
  size_le : table.size ≤ capacity
  limit_le : table.limit ≤ 65535

/-- The next table is this one with some places more. -/
structure Takes (table : RecordTable) (places : List Placement) (next : RecordTable) :
    Prop where
  places_eq : next.places = table.places ++ places
  limit_eq : next.limit = table.limit
  regular : next.Regular

theorem size_eq_length_places (table : RecordTable) : table.size = table.places.length := by
  simp [size, places]

theorem map_id_places (table : RecordTable) :
    table.places.map Placement.id = table.records.map Record.id := by
  rw [places, List.map_map]
  rfl

theorem Takes.refl {table : RecordTable} (h : table.Regular) : table.Takes [] table :=
  ⟨(List.append_nil _).symm, rfl, h⟩

theorem Takes.trans {table mid next : RecordTable} {places behind : List Placement}
    (h : table.Takes places mid) (hbehind : mid.Takes behind next) :
    table.Takes (places ++ behind) next :=
  ⟨by rw [hbehind.places_eq, h.places_eq, List.append_assoc],
    hbehind.limit_eq.trans h.limit_eq, hbehind.regular⟩

theorem Takes.room_eq {table next : RecordTable} {places : List Placement}
    (h : table.Takes places next) : next.room = table.room - places.length := by
  rw [room, room, size_eq_length_places, size_eq_length_places, h.places_eq,
    List.length_append]
  omega

theorem Takes.taken_append {table mid : RecordTable} {places : List Placement}
    {pieces : List Piece} (behind : List Piece) (h : table.Takes places mid)
    (hplaces : places.length = (table.taken pieces).length)
    (hfit : behind = [] ∨ ∀ piece ∈ pieces, piece.place.stop ≤ table.limit) :
    table.taken (pieces ++ behind) = table.taken pieces ++ mid.taken behind := by
  rw [taken, taken, taken, accepted_append hfit, h.room_eq, h.limit_eq, hplaces]
  rfl

theorem takes_add? {table added : RecordTable} {place : Placement} (h : table.Regular)
    (hadd : table.add? place = some added) : table.Takes [place] added := by
  have hsize := h.size_le
  have hlimit := h.limit_le
  obtain ⟨hroom, hfits, rfl⟩ := add?_eq_some_iff.mp hadd
  obtain ⟨_, _, hstop⟩ := (fits_iff table place.offset place.length).mp hfits
  have hplace : (Record.ofNats place.id place.offset place.length).place = place := by
    rw [Record.place, start_ofNats _ (by omega), size_ofNats _ (by omega)]
    rfl
  refine ⟨?_, rfl, ?_, hlimit⟩
  · rw [places, List.map_append, List.map_singleton, hplace]
    rfl
  · simp only [size, List.length_append, List.length_singleton] at hsize hroom ⊢
    omega

theorem stop_le_of_add? {table added : RecordTable} {place : Placement}
    (hadd : table.add? place = some added) : place.stop ≤ table.limit := by
  obtain ⟨_, hfits, _⟩ := add?_eq_some_iff.mp hadd
  exact ((fits_iff table place.offset place.length).mp hfits).2.2

theorem taken_of_some {table added : RecordTable} {place : Placement} (h : table.Regular)
    (hadd : table.add? place = some added) (role : Role) (behind : List Piece) :
    table.taken (⟨role, place⟩ :: behind) = ⟨role, place⟩ :: added.taken behind := by
  have htakes := takes_add? h hadd
  have hroom : table.room = added.room + 1 := by
    have hsize := h.size_le
    have hadded := (add?_eq_some_iff.mp hadd).1
    rw [htakes.room_eq, List.length_singleton, room]
    omega
  rw [taken, taken, hroom, htakes.limit_eq, accepted_cons_of_le]
  exact stop_le_of_add? hadd

theorem taken_of_none {table : RecordTable} {place : Placement} (h : table.Regular)
    (hadd : table.add? place = none) (role : Role) (behind : List Piece) :
    table.taken (⟨role, place⟩ :: behind) = [] := by
  rw [← Option.not_isSome_iff_eq_none, add?_isSome_iff] at hadd
  have hlimit := h.limit_le
  rw [taken]
  rcases Nat.lt_or_ge table.limit place.stop with hstop | hstop
  · exact accepted_cons_of_lt hstop
  · have hroom : table.room = 0 := by
      unfold room
      unfold Placement.stop at hstop
      omega
    rw [hroom, accepted_zero]

theorem taken_front (table : RecordTable) (pieces : List Piece) :
    table.taken pieces <+: pieces :=
  accepted_front _ _ _

@[simp] theorem taken_nil (table : RecordTable) : table.taken [] = [] :=
  accepted_nil

theorem takes_recordEntries {table : RecordTable} (h : table.Regular) (offset : Nat)
    (fault : Option Note) (entries : List Entry) :
    table.Takes ((table.taken (entryPieces offset entries)).map Piece.place)
      (table.recordEntries offset fault entries).table := by
  induction entries generalizing table offset with
  | nil =>
      rw [entryPieces, taken_nil]
      exact .refl h
  | cons entry rest ih =>
      cases hfinding : entry.finding with
      | skipped note =>
          simp only [recordEntries, entryPieces, hfinding]
          exact ih h _
      | known id =>
          simp only [recordEntries, entryPieces, hfinding]
          cases hadd : table.add? ⟨id, offset, entry.length⟩ with
          | none =>
              rw [taken_of_none h hadd]
              exact .refl h
          | some added =>
              have htakes := takes_add? h hadd
              rw [taken_of_some h hadd]
              exact htakes.trans (ih htakes.regular _)

theorem takes_recordMembers {table : RecordTable} (h : table.Regular) (offset : Nat)
    (members : Members) :
    table.Takes ((table.taken (members.pieces offset)).map Piece.place)
      (table.recordMembers offset members).table :=
  takes_recordEntries h _ _ _

end RecordTable

section Members

variable {members : Members} {offset length : Nat} {front : List Piece}

theorem Members.stop_le_of_mem_pieces {piece : Piece} (hwithin : members.Within length)
    (h : piece ∈ members.pieces offset) : piece.place.stop ≤ offset + length := by
  have hstop := (mem_entryPieces_bounds h).2.2
  unfold Members.Within at hwithin
  omega

theorem role_of_front (hfront : front <+: members.pieces offset) :
    ∀ piece ∈ front, piece.role = .member := by
  intro piece hpiece
  exact (mem_entryPieces_bounds (hfront.subset hpiece)).1

theorem Layer.trailed_of_front {layer : Layer} (h : layer.trailers = none) {start : Nat}
    (hfront : front <+: layer.parts start) : trailed front = 0 := by
  rw [layer.parts_eq_members h] at hfront
  exact trailed_map_member (role_of_front hfront)

theorem trailed_append_front (hfront : front <+: members.pieces offset) (behind : List Piece) :
    trailed (front ++ behind) = trailed behind := by
  have hmember := role_of_front hfront
  rw [trailed_append, trailed_map_member hmember, Nat.zero_add]
  intro piece hpiece
  rw [hmember piece hpiece]
  decide

end Members

theorem widened_layer {members : Members} {offset : Nat} {front trailers : List Piece}
    (place : Placement) (hfront : front <+: members.pieces offset)
    (htrailers : ∀ piece ∈ trailers, piece.role ≠ .header) :
    widened (⟨.header, place⟩ :: (front ++ trailers)) =
      { place with length := place.length + trailed trailers } ::
        (front.map Piece.place ++ trailers.map Piece.place) := by
  rw [widened, trailed_append_front hfront, widened_eq_map, List.map_append]
  intro piece hpiece
  rcases List.mem_append.mp hpiece with hpiece | hpiece
  · rw [role_of_front hfront piece hpiece]
    decide
  · exact htrailers piece hpiece

namespace RecordTable

theorem stop_recordTrailers_le {table : RecordTable} {offset : Nat} (h : offset ≤ table.limit)
    (trailers : List Trailer) : (table.recordTrailers offset trailers).stop ≤ table.limit := by
  induction trailers generalizing table offset with
  | nil => exact h
  | cons trailer rest ih =>
      unfold recordTrailers
      dsimp only
      split
      · exact h
      · rename_i added hadd
        have hstop := stop_le_of_add? hadd
        have hreaches : table.Reaches (added.recordMembers offset trailer.members).table :=
          .head (.add hadd) (recordEntries_reaches _ _ _ _)
        have hlimit := hreaches.limit_eq
        exact hlimit ▸ ih (hlimit ▸ hstop)

/-- What recording trailers comes to. -/
structure Trails (table : RecordTable) (offset : Nat) (trailers : List Trailer)
    (trail : Trail) : Prop where
  takes : table.Takes
    ((table.taken (trailerPieces offset trailers)).map Piece.place) trail.table
  stop_eq : trail.stop = offset + trailed (table.taken (trailerPieces offset trailers))
  complete : trail.complete = true →
    (∀ piece ∈ trailerPieces offset trailers, piece.place.stop ≤ table.limit) ∧
      trail.stop = offset + total Trailer.length trailers
  incomplete : trail.complete = false →
    table.taken (trailerPieces offset trailers) ≠ trailerPieces offset trailers

theorem trails_recordTrailers {table : RecordTable} (h : table.Regular) (offset : Nat)
    {trailers : List Trailer}
    (hwithin : ∀ trailer ∈ trailers, trailer.members.Within trailer.length) :
    table.Trails offset trailers (table.recordTrailers offset trailers) := by
  induction trailers generalizing table offset with
  | nil =>
      refine ⟨?_, ?_, fun _ => ⟨?_, rfl⟩, ?_⟩
      · rw [trailerPieces, taken_nil]
        exact .refl h
      · rw [trailerPieces, taken_nil]
        rfl
      · intro piece hpiece
        cases hpiece
      · intro hcomplete
        cases hcomplete
  | cons trailer rest ih =>
      rw [List.forall_mem_cons] at hwithin
      unfold recordTrailers
      dsimp only
      cases hadd : table.add? ⟨trailer.id, offset, trailer.length⟩ with
      | none =>
          have htaken : table.taken (trailerPieces offset (trailer :: rest)) = [] :=
            taken_of_none h hadd _ _
          refine ⟨?_, ?_, ?_, ?_⟩
          · rw [htaken]
            exact .refl h
          · rw [htaken]
            rfl
          · intro hcomplete
            cases hcomplete
          · intro _ hall
            rw [htaken] at hall
            cases hall
      | some added =>
          have htakes := takes_add? h hadd
          have hstop := stop_le_of_add? hadd
          have hmembers := takes_recordMembers htakes.regular offset trailer.members
          have hlimit := hmembers.limit_eq.trans htakes.limit_eq
          have hbehind := ih hmembers.regular (offset + trailer.length) hwithin.2
          have hinside : ∀ piece ∈ trailer.members.pieces offset,
              piece.place.stop ≤ table.limit := by
            intro piece hpiece
            exact (Members.stop_le_of_mem_pieces hwithin.1 hpiece).trans hstop
          have htaken := taken_of_some h hadd .trailer
            (trailer.members.pieces offset ++ trailerPieces (offset + trailer.length) rest)
          rw [hmembers.taken_append _ (List.length_map _) (.inr (htakes.limit_eq ▸ hinside)),
            ← trailerPieces] at htaken
          refine ⟨?_, ?_, ?_, ?_⟩
          · rw [htaken, List.map_cons, List.map_append]
            exact htakes.trans (hmembers.trans hbehind.takes)
          · rw [htaken, trailed, trailed_append_front (taken_front _ _),
              hbehind.stop_eq, Nat.add_assoc]
          · intro hcomplete
            obtain ⟨hfit, hreached⟩ := hbehind.complete hcomplete
            refine ⟨?_, ?_⟩
            · rw [trailerPieces, List.forall_mem_cons, List.forall_mem_append]
              exact ⟨hstop, hinside, hlimit ▸ hfit⟩
            · rw [hreached, total_cons, Nat.add_assoc]
          · intro hcomplete hall
            rw [htaken, trailerPieces, List.cons.injEq] at hall
            exact hbehind.incomplete hcomplete (accepted_eq_of_append hall.2)

theorem trails_layer {table added : RecordTable} (h : table.Regular) {offset : Nat}
    {layer : Layer} (hclosed : layer.Closed) {trailers : List Trailer}
    (htrailers : layer.trailers = some trailers)
    (hadd : table.add? ⟨layer.kind.id, offset, layer.length⟩ = some added) :
    let carried := (added.recordMembers offset layer.members).table
    let trail := carried.recordTrailers (offset + layer.length) trailers
    carried.Trails (offset + layer.length) trailers trail ∧
      offset + (trail.stop - offset) ≤ trail.table.limit := by
  intro carried trail
  have htakes := takes_add? h hadd
  have hmembers := takes_recordMembers htakes.regular offset layer.members
  have hlimit := hmembers.limit_eq.trans htakes.limit_eq
  have htrail : carried.Trails (offset + layer.length) trailers trail :=
    trails_recordTrailers hmembers.regular _ (hclosed.within htrailers).2
  have hstop_le : trail.stop ≤ carried.limit :=
    stop_recordTrailers_le (hlimit ▸ stop_le_of_add? hadd) trailers
  have hstop_eq := htrail.stop_eq
  refine ⟨htrail, ?_⟩
  rw [htrail.takes.limit_eq]
  omega

theorem resize?_of_takes {table next : RecordTable} {place : Placement}
    {behind : List Placement} (length : Nat) (h : table.Takes (place :: behind) next)
    (hfit : place.offset + length ≤ next.limit) :
    ∃ record : Record, record.place = place ∧ next.resize? table.size length =
      some ⟨next.records.set table.size ⟨record.id, record.offset, length.toUInt16⟩,
        next.mask, next.limit⟩ := by
  have hlimit := h.regular.limit_le
  have hget : next.places[table.size]? = some place := by
    rw [h.places_eq, size_eq_length_places]
    simp
  rw [places, List.getElem?_map, Option.map_eq_some_iff] at hget
  obtain ⟨record, hrecord, rfl⟩ := hget
  exact ⟨record, rfl, resize?_eq_some_iff.mpr ⟨record, hrecord, (fits_iff next _ _).mpr
    ⟨by simp only [Record.place] at hfit; omega, by omega, hfit⟩, rfl⟩⟩

theorem takes_recordResize {table next : RecordTable} {place : Placement}
    {behind : List Placement} (length : Nat) (h : table.Takes (place :: behind) next)
    (hfit : place.offset + length ≤ next.limit) :
    table.Takes ({ place with length } :: behind)
      (next.recordResize table.size length).table := by
  have hlimit := h.regular.limit_le
  obtain ⟨record, rfl, hresize⟩ := resize?_of_takes length h hfit
  rw [recordResize, hresize]
  refine ⟨?_, h.limit_eq, ?_, hlimit⟩
  · have hsize : length.toUInt16.toNat = length := by
      simp only [Nat.toUInt16_eq, UInt16.toNat_ofNat']
      omega
    have hplaces := h.places_eq
    rw [places] at hplaces
    rw [places, List.map_set, hplaces, size_eq_length_places]
    simp [Record.place, Record.start, Record.size, hsize]
  · simpa [size] using h.regular.size_le

/-- What recording a layer comes to. -/
structure Lays (table : RecordTable) (offset : Nat) (layer : Layer) (progress : Progress) :
    Prop where
  takes : table.Takes (widened (table.taken (layer.pieces offset))) progress.table
  stopped : progress.reached = none →
    table.taken (layer.pieces offset) ≠ layer.pieces offset
  reached : ∀ stop, progress.reached = some stop → stop = offset + layer.span ∧
    (layer.members.Within layer.length →
      ∀ piece ∈ layer.pieces offset, piece.place.stop ≤ table.limit)

theorem taken_layer {table added : RecordTable} (h : table.Regular) {offset : Nat}
    {layer : Layer} (hclosed : layer.Closed)
    (hadd : table.add? ⟨layer.kind.id, offset, layer.length⟩ = some added) :
    table.taken (layer.pieces offset) = ⟨.header, layer.kind.id, offset, layer.length⟩ ::
      (added.taken (layer.members.pieces offset) ++
        (added.recordMembers offset layer.members).table.taken
          (trailerPieces (offset + layer.length) (layer.trailers.getD []))) := by
  have htakes := takes_add? h hadd
  have hmembers := takes_recordMembers htakes.regular offset layer.members
  rw [Layer.pieces, taken_of_some h hadd, Layer.parts,
    hmembers.taken_append _ (List.length_map _)]
  rcases hclosed.members with hnone | hwithin
  · left
    rw [hnone]
    rfl
  · right
    intro piece hpiece
    rw [htakes.limit_eq]
    exact (Members.stop_le_of_mem_pieces hwithin hpiece).trans (stop_le_of_add? hadd)

theorem lays_recordLayer {table : RecordTable} (h : table.Regular) (summary : Summary)
    (offset : Nat) {layer : Layer} (hclosed : layer.Closed) :
    table.Lays offset layer (recordLayer table summary offset layer) := by
  unfold recordLayer
  dsimp only
  cases hadd : table.add? ⟨layer.kind.id, offset, layer.length⟩ with
  | none =>
      have htaken : table.taken (layer.pieces offset) = [] := taken_of_none h hadd _ _
      refine ⟨?_, ?_, ?_⟩
      · rw [htaken]
        exact .refl h
      · intro _ hall
        rw [htaken] at hall
        cases hall
      · intro stop hreached
        cases hreached
  | some added =>
      have htakes := takes_add? h hadd
      have hstop := stop_le_of_add? hadd
      have hmembers := takes_recordMembers htakes.regular offset layer.members
      have hlimit := hmembers.limit_eq.trans htakes.limit_eq
      have hinside (hwithin : layer.members.Within layer.length) :
          ∀ piece ∈ layer.members.pieces offset, piece.place.stop ≤ table.limit :=
        fun piece hpiece => (Members.stop_le_of_mem_pieces hwithin hpiece).trans hstop
      have htaken := taken_layer h hclosed hadd
      have hwidened := congrArg widened htaken
      rw [widened_layer _ (taken_front _ _) fun piece hpiece =>
        mem_trailerPieces_role ((taken_front _ _).subset hpiece)] at hwidened
      cases htrailers : layer.trailers with
      | none =>
          rw [htrailers] at hwidened
          refine ⟨?_, ?_, ?_⟩
          · simpa [hwidened, trailerPieces, trailed] using htakes.trans hmembers
          · intro hreached
            cases hreached
          · intro stop hreached
            cases hreached
            refine ⟨?_, ?_⟩
            · rw [Layer.span, htrailers]
              rfl
            · intro hwithin
              rw [Layer.pieces, Layer.parts_eq_members htrailers, List.forall_mem_cons]
              exact ⟨hstop, hinside hwithin⟩
      | some trailers =>
          obtain ⟨htrail, hfit⟩ := trails_layer h hclosed htrailers hadd
          have hall := htakes.trans (hmembers.trans htrail.takes)
          have hlength := htrail.stop_eq
          have hparts : layer.parts offset = layer.members.pieces offset ++
              trailerPieces (offset + layer.length) trailers := by
            rw [Layer.parts, htrailers, Option.getD_some]
          rw [htrailers, Option.getD_some] at hwidened htaken
          dsimp only
          refine ⟨?_, ?_, ?_⟩
          · rw [hlength, Nat.add_assoc, Nat.add_sub_cancel_left] at hfit
            rw [hwidened, hlength, Nat.add_assoc, Nat.add_sub_cancel_left]
            exact takes_recordResize _ hall hfit
          · intro hreached hpieces
            split at hreached
            · cases hreached
            · rename_i hincomplete
              rw [htaken, Layer.pieces, hparts, List.cons.injEq] at hpieces
              rw [Bool.not_eq_true] at hincomplete
              exact htrail.incomplete hincomplete (accepted_eq_of_append hpieces.2)
          · intro stop hreached
            split at hreached
            · rename_i hcomplete
              cases hreached
              obtain ⟨hfit, hreached⟩ := htrail.complete hcomplete
              refine ⟨?_, ?_⟩
              · rw [hreached, Layer.span, htrailers, Nat.add_assoc]
                rfl
              · intro hwithin
                rw [Layer.pieces, hparts, List.forall_mem_cons, List.forall_mem_append]
                exact ⟨hstop, hinside hwithin, hlimit ▸ hfit⟩
            · cases hreached

theorem reached_recordLayer_le {table : RecordTable} {summary : Summary} {offset : Nat}
    {layer : Layer} {stop : Nat}
    (h : (recordLayer table summary offset layer).reached = some stop) : stop ≤ table.limit := by
  unfold recordLayer at h
  dsimp only at h
  split at h
  · cases h
  · rename_i added hadd
    have hstop := stop_le_of_add? hadd
    split at h
    · cases h
      exact hstop
    · split at h
      · cases h
        have hreaches : table.Reaches (added.recordMembers offset layer.members).table :=
          .head (.add hadd) (recordEntries_reaches _ _ _ _)
        have hlimit := hreaches.limit_eq
        exact hlimit ▸ stop_recordTrailers_le (hlimit ▸ hstop) _
      · cases h

theorem Lays.taken_of_stopped {table : RecordTable} {offset : Nat} {layer : Layer}
    {progress : Progress} (h : table.Lays offset layer progress)
    (hstopped : progress.reached = none) (rest : List Layer) :
    table.taken (layerPieces offset (layer :: rest)) = table.taken (layer.pieces offset) :=
  accepted_append_of_ne (h.stopped hstopped)

theorem Lays.taken_of_reached {table : RecordTable} {offset stop : Nat} {layer : Layer}
    {progress : Progress} (h : table.Lays offset layer progress)
    (hreached : progress.reached = some stop) {rest : List Layer}
    (hlast : rest = [] ∨ layer.members.Within layer.length) :
    table.taken (layerPieces offset (layer :: rest)) =
      table.taken (layer.pieces offset) ++ progress.table.taken (layerPieces stop rest) := by
  obtain ⟨rfl, hfit⟩ := h.reached stop hreached
  rw [layerPieces, h.takes.taken_append _ (widened_length _)]
  rcases hlast with rfl | hwithin
  · exact .inl rfl
  · exact .inr (hfit hwithin)

end RecordTable

theorem widened_append_front (pieces : List Piece) {behind : List Piece} {offset : Nat}
    {layers : List Layer} (h : behind <+: layerPieces offset layers) :
    widened (pieces ++ behind) = widened pieces ++ widened behind := by
  cases behind with
  | nil => simp [widened]
  | cons first rest =>
      cases layers with
      | nil => cases List.prefix_nil.mp h
      | cons layer layers =>
          rw [layerPieces, Layer.pieces, List.cons_append, List.cons_prefix_cons] at h
          rw [h.1, widened_append_header]

/-- Recording the layers of a closed chain takes their pieces up to the first that is
refused, and widens each header over the trailers taken with it. -/
theorem takes_recordLayers {table : RecordTable} (h : table.Regular) (summary : Summary)
    (offset : Nat) {layers : List Layer} (hclosed : ClosedChain layers) :
    table.Takes (widened (table.taken (layerPieces offset layers)))
      (recordLayers table summary offset layers).table := by
  induction layers generalizing table summary offset with
  | nil =>
      rw [layerPieces, RecordTable.taken_nil]
      exact .refl h
  | cons layer rest ih =>
      obtain ⟨hlayer, hlast, hrest⟩ := hclosed
      have hlays := RecordTable.lays_recordLayer h summary offset hlayer
      unfold recordLayers
      dsimp only
      split
      · rename_i hstopped
        rw [hlays.taken_of_stopped hstopped]
        exact hlays.takes
      · rename_i stop hreached
        rw [hlays.taken_of_reached hreached hlast,
          widened_append_front _ (RecordTable.taken_front _ _)]
        exact hlays.takes.trans (ih hlays.takes.regular _ _ hrest)

end Dissection

import Dissection.Recording

namespace Dissection

def Event.isNote : Event → Bool
  | .noted _ _ => true
  | _ => false

@[simp] theorem Event.isNote_added (place : Placement) (index : Nat) :
    (added place index).isNote = false :=
  rfl

/-- What was recorded, without the notes made on the way. -/
def Recorded.heard (recorded : Recorded) : Recorded :=
  ⟨recorded.table, recorded.events.filter fun event => !event.isNote⟩

theorem Recorded.heard_eq_iff {recorded other : Recorded} :
    recorded.heard = other.heard ↔ recorded.table = other.table ∧
      (recorded.events.filter fun event => !event.isNote) =
        other.events.filter fun event => !event.isNote := by
  rw [heard, heard, Recorded.mk.injEq]

theorem Recorded.countP_heard (recorded : Recorded) {kind : Event → Bool}
    (hkind : ∀ offset note, kind (.noted offset note) = false) :
    recorded.heard.events.countP kind = recorded.events.countP kind := by
  rw [heard, List.countP_filter]
  congr 1
  funext event
  cases event <;> simp [Event.isNote, hkind]

/-- Members without the note on where they break off. -/
def Members.hushed (members : Members) : Members :=
  ⟨members.start, members.run.items, .none⟩

def Trailer.hushed (trailer : Trailer) : Trailer :=
  { trailer with members := trailer.members.hushed }

def Layer.hushed (layer : Layer) : Layer :=
  { layer with
    members := layer.members.hushed
    trailers := layer.trailers.map (List.map Trailer.hushed) }

theorem total_hushed (trailers : List Trailer) :
    total Trailer.length (trailers.map Trailer.hushed) = total Trailer.length trailers := by
  induction trailers with
  | nil => rfl
  | cons trailer rest ih => simp [Trailer.hushed, ih]

theorem Layer.span_hushed (layer : Layer) : layer.hushed.span = layer.span := by
  unfold span hushed
  cases layer.trailers with
  | none => rfl
  | some trailers => simp [total_hushed]

namespace RecordTable

theorem recordEntries_hushed (table : RecordTable) (offset : Nat) (fault : Option Note)
    (entries : List Entry) :
    (table.recordEntries offset fault entries).heard =
      (table.recordEntries offset none entries).heard := by
  induction entries generalizing table offset with
  | nil => cases fault <;> rfl
  | cons entry rest ih =>
      cases hfinding : entry.finding with
      | skipped note =>
          simp only [recordEntries, hfinding]
          exact ih _ _
      | known id =>
          simp only [recordEntries, hfinding]
          cases table.add? ⟨id, offset, entry.length⟩ with
          | none => rfl
          | some added =>
              obtain ⟨htable, hevents⟩ :=
                Recorded.heard_eq_iff.mp (ih added (offset + entry.length))
              simp [Recorded.heard, htable, hevents]

theorem recordMembers_hushed (table : RecordTable) (offset : Nat) (members : Members) :
    (table.recordMembers offset members).heard =
      (table.recordMembers offset members.hushed).heard :=
  table.recordEntries_hushed _ _ _

def Trail.heard (trail : Trail) : Trail :=
  { trail with toRecorded := trail.toRecorded.heard }

theorem recordTrailers_hushed (table : RecordTable) (offset : Nat) (trailers : List Trailer) :
    (table.recordTrailers offset trailers).heard =
      (table.recordTrailers offset (trailers.map Trailer.hushed)).heard := by
  induction trailers generalizing table offset with
  | nil => rfl
  | cons trailer rest ih =>
      have hplace : (⟨trailer.hushed.id, offset, trailer.hushed.length⟩ : Placement) =
          ⟨trailer.id, offset, trailer.length⟩ := rfl
      rw [List.map_cons, recordTrailers, recordTrailers, hplace]
      cases table.add? ⟨trailer.id, offset, trailer.length⟩ with
      | none => rfl
      | some added =>
          obtain ⟨htable, hevents⟩ :=
            Recorded.heard_eq_iff.mp (added.recordMembers_hushed offset trailer.members)
          have hbehind := ih (added.recordMembers offset trailer.members).table
            (offset + trailer.length)
          rw [htable] at hbehind
          simp only [Trail.heard, Trail.mk.injEq, Recorded.heard_eq_iff] at hbehind
          simp [Trail.heard, Recorded.heard, Trailer.hushed, htable, hevents, hbehind]

end RecordTable

def Progress.heard (progress : Progress) : Progress :=
  { progress with toRecorded := progress.toRecorded.heard }

theorem Progress.heard_eq_iff {progress other : Progress} :
    progress.heard = other.heard ↔
      progress.toRecorded.heard = other.toRecorded.heard ∧
        progress.summary = other.summary ∧ progress.reached = other.reached := by
  rw [heard, heard, Progress.mk.injEq]

theorem recordLayer_hushed (table : RecordTable) (summary : Summary) (offset : Nat)
    (layer : Layer) :
    (recordLayer table summary offset layer).heard =
      (recordLayer table summary offset layer.hushed).heard := by
  have hplace : (⟨layer.hushed.kind.id, offset, layer.hushed.length⟩ : Placement) =
      ⟨layer.kind.id, offset, layer.length⟩ := rfl
  rw [recordLayer, recordLayer, hplace]
  cases table.add? ⟨layer.kind.id, offset, layer.length⟩ with
  | none => rfl
  | some added =>
      obtain ⟨htable, hevents⟩ :=
        Recorded.heard_eq_iff.mp (added.recordMembers_hushed offset layer.members)
      cases htrailers : layer.trailers with
      | none =>
          simp [Progress.heard, Recorded.heard, Layer.hushed, Summary.addLayer,
            htrailers, htable, hevents]
      | some trailers =>
          have htrail := RecordTable.recordTrailers_hushed
            (added.recordMembers offset layer.members).table (offset + layer.length) trailers
          rw [htable] at htrail
          simp only [RecordTable.Trail.heard, RecordTable.Trail.mk.injEq,
            Recorded.heard_eq_iff] at htrail
          simp [Progress.heard, Recorded.heard, Layer.hushed, Summary.addLayer,
            htrailers, htable, hevents, htrail]

/-- Layers without their notes are recorded as they are with them. -/
theorem recordLayers_hushed (table : RecordTable) (summary : Summary) (offset : Nat)
    (layers : List Layer) :
    (recordLayers table summary offset layers).heard =
      (recordLayers table summary offset (layers.map Layer.hushed)).heard := by
  induction layers generalizing table summary offset with
  | nil => rfl
  | cons layer rest ih =>
      obtain ⟨hrecorded, hsummary, hreached⟩ :=
        Progress.heard_eq_iff.mp (recordLayer_hushed table summary offset layer)
      obtain ⟨htable, hevents⟩ := Recorded.heard_eq_iff.mp hrecorded
      rw [List.map_cons, recordLayers, recordLayers]
      dsimp only
      rw [← hreached]
      cases (recordLayer table summary offset layer).reached with
      | none => exact Progress.heard_eq_iff.mpr ⟨hrecorded, hsummary, hreached⟩
      | some stop =>
          have hbehind := ih (recordLayer table summary offset layer).table
            (recordLayer table summary offset layer).summary stop
          rw [htable, hsummary] at hbehind
          simp only [Progress.heard_eq_iff, Recorded.heard_eq_iff] at hbehind
          simp [Progress.heard, Recorded.heard, htable, hsummary, hevents, hbehind]

end Dissection

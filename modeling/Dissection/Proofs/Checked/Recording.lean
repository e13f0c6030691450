import Dissection.Proofs.Checked.Chain
import Dissection.Proofs.FillingRecords

namespace Dissection

namespace RecordTable

theorem Step.regular {table next : RecordTable} (h : Step table next) (hregular : table.Regular) :
    next.Regular := by
  cases h with
  | add hadd => exact (takes_add? hregular hadd).regular
  | resize hresize =>
      obtain ⟨_, _, _, rfl⟩ := resize?_eq_some_iff.mp hresize
      exact ⟨by simpa [size] using hregular.size_le, hregular.limit_le⟩

theorem size_of_add? {table added : RecordTable} {place : Placement}
    (h : table.add? place = some added) : added.size = table.size + 1 := by
  obtain ⟨_, _, rfl⟩ := add?_eq_some_iff.mp h
  simp [size]

theorem Step.size_le {table next : RecordTable} (h : Step table next) :
    table.size ≤ next.size := by
  cases h with
  | add hadd => exact (Nat.le_succ _).trans_eq (size_of_add? hadd).symm
  | resize hresize =>
      obtain ⟨_, _, _, rfl⟩ := resize?_eq_some_iff.mp hresize
      simp [size]

theorem Reaches.size_le {table next : RecordTable} (h : Reaches table next) :
    table.size ≤ next.size := by
  induction h with
  | refl => exact Nat.le_refl _
  | tail _ hstep ih => exact ih.trans hstep.size_le

theorem Reaches.regular {table next : RecordTable} (h : Reaches table next)
    (hregular : table.Regular) : next.Regular := by
  induction h with
  | refl => exact hregular
  | tail _ hstep ih => exact hstep.regular ih

end RecordTable

/-- Neither more tags nor more labels are counted than a bound says. -/
structure Summary.Counts (summary : Summary) (bound : Nat) : Prop where
  vlans_le : summary.vlans ≤ bound
  labels_le : summary.labels ≤ bound

namespace Summary.Counts

variable {summary : Summary} {bound : Nat}

theorem mono (h : summary.Counts bound) {other : Nat} (hbound : bound ≤ other) :
    summary.Counts other :=
  ⟨h.vlans_le.trans hbound, h.labels_le.trans hbound⟩

theorem add (h : summary.Counts bound) (mark : Mark) : (summary.add mark).Counts (bound + 1) := by
  obtain ⟨hvlans, hlabels⟩ := h
  cases mark <;> constructor <;> simp only [Summary.add] <;> omega

theorem addAll (h : summary.Counts bound) (marks : List Mark) :
    (summary.addAll marks).Counts (bound + marks.length) := by
  induction marks generalizing summary bound with
  | nil => exact h
  | cons mark rest ih => exact (ih (h.add mark)).mono (by simp only [List.length_cons]; omega)

theorem addLayer (h : summary.Counts bound) (layer : Layer) (marks : List Mark) :
    (summary.addLayer layer marks).Counts (bound + marks.length) := by
  unfold Summary.addLayer
  split
  · exact h.addAll marks
  · exact h.mono (Nat.le_add_right _ _)

end Summary.Counts

namespace Checked

def slot (index : Nat) : Checked Nat :=
  if index < RecordTable.capacity then .ok index else .error .slot

def distance (amount : Nat) : Checked Nat :=
  if amount < 64 then .ok amount else .error .shift

def maskBit (id : ProtocolId) : Checked UInt64 :=
  if id.isCore && id.ordinal < 64 then do
    let amount ← distance id.ordinal.toNat
    .ok (1 <<< amount.toUInt64)
  else .ok 0

/-- Whether a place lies within the captured bytes and within sixteen bits. Its end is computed
last. -/
def fits (table : RecordTable) (offset length : Nat) : Checked Bool :=
  if offset ≤ 65535 then
    if length ≤ 65535 then do
      -- Both have sixteen bits here, so their sum fits a word.
      let stop ← word (offset + length)
      .ok (stop ≤ table.limit)
    else .ok false
  else .ok false

def add? (table : RecordTable) (place : Placement) : Checked (Option RecordTable) :=
  if table.isFull then .ok none
  else do
    if ← fits table place.offset place.length then
      let index ← slot table.size
      let offset ← fit 16 place.offset
      let length ← fit 16 place.length
      let bit ← maskBit place.id
      .ok (some
        { table with
          records := table.records.take index ++ [.ofNats place.id offset length]
          mask := table.mask ||| bit })
    else .ok none

def resize? (table : RecordTable) (index length : Nat) : Checked (Option RecordTable) :=
  if table.size ≤ index then .ok none
  else do
    let index ← slot index
    match table.records[index]? with
    | none => .ok none
    | some record =>
        if ← fits table record.start length then
          let length ← fit 16 length
          .ok (some
            { table with
              records := table.records.set index { record with length := length.toUInt16 } })
        else .ok none

section Table

variable {table : RecordTable}

theorem maskBit_eq (id : ProtocolId) : maskBit id = .ok id.maskBit := by
  unfold maskBit ProtocolId.maskBit
  split
  · rename_i hordinal
    rw [Bool.and_eq_true, decide_eq_true_eq] at hordinal
    have hlt : id.ordinal.toNat < 64 := UInt8.lt_iff_toNat_lt.mp hordinal.2
    rw [distance, if_pos hlt, ok_bind]
    simp
  · rfl

theorem fits_eq (table : RecordTable) (offset length : Nat) :
    fits table offset length = .ok (table.fits offset length) := by
  unfold fits RecordTable.fits
  by_cases hoffset : offset ≤ 65535
  · by_cases hlength : length ≤ 65535
    · rw [if_pos hoffset, if_pos hlength, word_eq (by omega)]
      simp [hoffset, hlength]
    · simp [hoffset, hlength]
  · simp [hoffset]

theorem slot_eq {index : Nat} (h : index < RecordTable.capacity) : slot index = .ok index :=
  if_pos h

theorem add?_eq (h : table.Regular) (place : Placement) :
    add? table place = .ok (table.add? place) := by
  unfold add? RecordTable.add?
  cases hfull : table.isFull with
  | true => simp
  | false =>
      have hsize := h.size_le
      have hroom : table.size ≠ RecordTable.capacity := by simpa [RecordTable.isFull] using hfull
      simp only [Bool.false_eq_true, if_false, fits_eq, ok_bind, Bool.false_or]
      cases hfits : table.fits place.offset place.length with
      | false => simp
      | true =>
          obtain ⟨hoffset, hlength, _⟩ := (table.fits_iff _ _).mp hfits
          have hall : table.records.take table.size = table.records :=
            List.take_of_length_le (Nat.le_refl _)
          simp only [if_true, Bool.not_true, Bool.false_eq_true, if_false]
          rw [slot_eq (by omega), ok_bind, fit_eq (by omega), ok_bind, fit_eq (by omega), ok_bind,
            maskBit_eq, ok_bind, hall]

theorem resize?_eq (h : table.Regular) (index length : Nat) :
    resize? table index length = .ok (table.resize? index length) := by
  have hsize := h.size_le
  unfold resize? RecordTable.resize?
  by_cases hindex : table.size ≤ index
  · rw [if_pos hindex, List.getElem?_eq_none hindex]
    rfl
  · rw [if_neg hindex, slot_eq (by omega), ok_bind]
    cases table.records[index]? with
    | none => rfl
    | some record =>
        simp only [fits_eq, ok_bind, Option.bind_eq_bind, Option.bind_some]
        split
        · rename_i hfits
          obtain ⟨_, hlength, _⟩ := (table.fits_iff _ _).mp hfits
          rw [fit_eq (by omega)]
          rfl
        · rfl

end Table

def recordEntries (table : RecordTable) (offset : Nat) (fault : Option Note) :
    List Entry → Checked Recorded
  | [] => .ok ⟨table, (fault.map (.noted offset)).toList⟩
  | entry :: rest =>
      match entry.finding with
      | .skipped note => do
          let next ← word (offset + entry.length)
          let behind ← recordEntries table next fault rest
          .ok ⟨behind.table, .noted offset note :: behind.events⟩
      | .known id => do
          let place : Placement := ⟨id, offset, entry.length⟩
          match ← add? table place with
          | none => .ok ⟨table, [table.refusal place]⟩
          | some added =>
              let next ← word (offset + entry.length)
              let behind ← recordEntries added next fault rest
              .ok ⟨behind.table, .added place table.size :: behind.events⟩

def recordMembers (table : RecordTable) (offset : Nat) (members : Members) :
    Checked Recorded := do
  let start ← word (offset + members.start)
  recordEntries table start members.run.verdict members.run.items

def recordTrailers (table : RecordTable) (offset : Nat) : List Trailer → Checked RecordTable.Trail
  | [] => .ok ⟨⟨table, []⟩, offset, none, true⟩
  | trailer :: rest => do
      let place : Placement := ⟨trailer.id, offset, trailer.length⟩
      match ← add? table place with
      | none => .ok ⟨⟨table, [table.refusal place]⟩, offset, none, false⟩
      | some added =>
          let members ← recordMembers added offset trailer.members
          let next ← word (offset + trailer.length)
          let behind ← recordTrailers members.table next rest
          .ok { behind with
            events := .added place table.size :: members.events ++ behind.events
            fragment := behind.fragment <|> trailer.fragment }

def recordResize (table : RecordTable) (index length : Nat) : Checked Recorded := do
  match ← resize? table index length with
  | none => .ok ⟨table, [.unresizable index length]⟩
  | some resized => .ok ⟨resized, [.resized index length]⟩

/-- Adds a fact to a summary. Tags and labels are each counted in one byte. -/
def addMark (summary : Summary) (mark : Mark) : Checked Summary :=
  match mark with
  | .vlan => do
      let vlans ← fit 8 (summary.vlans + 1)
      .ok { summary with vlans }
  | .mpls => do
      let labels ← fit 8 (summary.labels + 1)
      .ok { summary with labels }
  | _ => .ok (summary.add mark)

def addMarks (summary : Summary) : List Mark → Checked Summary
  | [] => .ok summary
  | mark :: rest => do
      let added ← addMark summary mark
      addMarks added rest

def addLayer (summary : Summary) (layer : Layer) (marks : List Mark) : Checked Summary :=
  if layer.depth = 0 then addMarks summary marks else .ok summary

/-- Records a header with what it carries and is trailed by. Its length with its trailers is their
end less its start. -/
def recordLayer (table : RecordTable) (summary : Summary) (offset : Nat) (layer : Layer) :
    Checked Progress := do
  let place : Placement := ⟨layer.kind.id, offset, layer.length⟩
  match ← add? table place with
  | none => .ok ⟨⟨table, [table.refusal place]⟩, summary, none⟩
  | some added =>
      let summary ← addLayer summary layer layer.marks
      let members ← recordMembers added offset layer.members
      let events := .added place table.size :: members.events
      let next ← word (offset + layer.length)
      match layer.trailers with
      | none => .ok ⟨⟨members.table, events⟩, summary, some next⟩
      | some trailers =>
          let trail ← recordTrailers members.table next trailers
          let length ← less trail.stop offset
          let resized ← recordResize trail.table table.size length
          let summary ← addLayer summary layer (trail.fragment.map .fragment).toList
          .ok
            { table := resized.table
              events := events ++ trail.events ++ resized.events
              summary
              reached := if trail.complete then some trail.stop else none }

def recordLayers (table : RecordTable) (summary : Summary) (offset : Nat) :
    List Layer → Checked Progress
  | [] => .ok ⟨⟨table, []⟩, summary, some offset⟩
  | layer :: rest => do
      let progress ← recordLayer table summary offset layer
      match progress.reached with
      | none => .ok progress
      | some stop =>
          let behind ← recordLayers progress.table progress.summary stop rest
          .ok { behind with events := progress.events ++ behind.events }

def recordPlaces (table : RecordTable) : List Placement → Checked Recorded
  | [] => .ok ⟨table, []⟩
  | place :: rest => do
      match ← add? table place with
      | none =>
          let behind ← recordPlaces table rest
          .ok ⟨behind.table, table.refusal place :: behind.events⟩
      | some added =>
          let behind ← recordPlaces added rest
          .ok ⟨behind.table, .added place table.size :: behind.events⟩

section Recording

variable {table : RecordTable} {offset : Nat}

theorem recordEntries_eq (h : table.Regular) (fault : Option Note) {entries : List Entry}
    (hstop : offset + total Entry.length entries < 2 ^ 64) :
    recordEntries table offset fault entries = .ok (table.recordEntries offset fault entries) := by
  induction entries generalizing table offset with
  | nil => rfl
  | cons entry rest ih =>
      rw [total_cons] at hstop
      unfold recordEntries RecordTable.recordEntries
      cases entry.finding with
      | skipped note =>
          dsimp only
          rw [word_eq (by omega), ok_bind, ih h (by omega)]
          rfl
      | known id =>
          dsimp only
          rw [add?_eq h, ok_bind]
          cases hadd : table.add? ⟨id, offset, entry.length⟩ with
          | none => rfl
          | some added =>
              dsimp only
              rw [word_eq (by omega), ok_bind,
                ih (RecordTable.takes_add? h hadd).regular (by omega)]
              rfl

theorem recordMembers_eq (h : table.Regular) {members : Members} (hnear : members.Near)
    (hoffset : offset < 2 ^ 33) :
    recordMembers table offset members = .ok (table.recordMembers offset members) := by
  unfold Members.Near at hnear
  rw [recordMembers, word_eq (by omega), ok_bind, recordEntries_eq h _ (by omega)]
  rfl

theorem recordTrailers_eq (h : table.Regular) {trailers : List Trailer}
    (hnear : ∀ trailer ∈ trailers, trailer.members.Near)
    (hstop : offset + total Trailer.length trailers < 2 ^ 33) :
    recordTrailers table offset trailers = .ok (table.recordTrailers offset trailers) := by
  induction trailers generalizing table offset with
  | nil => rfl
  | cons trailer rest ih =>
      rw [total_cons] at hstop
      rw [List.forall_mem_cons] at hnear
      unfold recordTrailers RecordTable.recordTrailers
      dsimp only
      rw [add?_eq h, ok_bind]
      cases hadd : table.add? ⟨trailer.id, offset, trailer.length⟩ with
      | none => rfl
      | some added =>
          have hregular := (RecordTable.takes_add? h hadd).regular
          have hmembers := (RecordTable.takes_recordMembers hregular offset trailer.members).regular
          dsimp only
          rw [recordMembers_eq hregular hnear.1 (by omega), ok_bind, word_eq (by omega), ok_bind,
            ih hmembers hnear.2 (by omega)]
          rfl

theorem recordResize_eq (h : table.Regular) (index length : Nat) :
    recordResize table index length = .ok (table.recordResize index length) := by
  rw [recordResize, resize?_eq h, ok_bind, RecordTable.recordResize]
  cases table.resize? index length <;> rfl

theorem addMark_eq {summary : Summary} {bound : Nat} (h : summary.Counts bound)
    (hbound : bound < 255) (mark : Mark) : addMark summary mark = .ok (summary.add mark) := by
  obtain ⟨hvlans, hlabels⟩ := h
  cases mark with
  | vlan =>
      rw [addMark, fit_eq (by omega)]
      rfl
  | mpls =>
      rw [addMark, fit_eq (by omega)]
      rfl
  | _ => rfl

theorem addMarks_eq {summary : Summary} {bound : Nat} (h : summary.Counts bound)
    {marks : List Mark} (hbound : bound + marks.length ≤ 255) :
    addMarks summary marks = .ok (summary.addAll marks) := by
  induction marks generalizing summary bound with
  | nil => rfl
  | cons mark rest ih =>
      rw [List.length_cons] at hbound
      rw [addMarks, addMark_eq h (by omega), ok_bind, ih (h.add mark) (by omega)]
      rfl

theorem addLayer_eq {summary : Summary} {bound : Nat} (h : summary.Counts bound) (layer : Layer)
    {marks : List Mark} (hbound : bound + marks.length ≤ 255) :
    addLayer summary layer marks = .ok (summary.addLayer layer marks) := by
  unfold addLayer Summary.addLayer
  split
  · exact addMarks_eq h hbound
  · rfl

theorem le_stop_recordTrailers (table : RecordTable) (offset : Nat) (trailers : List Trailer) :
    offset ≤ (table.recordTrailers offset trailers).stop := by
  induction trailers generalizing table offset with
  | nil => exact Nat.le_refl _
  | cons trailer rest ih =>
      unfold RecordTable.recordTrailers
      dsimp only
      split
      · exact Nat.le_refl _
      · exact (Nat.le_add_right _ _).trans (ih _ _)

theorem fragmentMarks_length_le (fragment : Option Fragment) :
    (fragment.map Mark.fragment).toList.length ≤ 1 := by
  cases fragment <;> simp

theorem recordLayer_eq (h : table.Regular) {summary : Summary}
    (hcounts : summary.Counts (3 * table.size)) {layer : Layer} (hnear : layer.Near)
    (hmarks : layer.marks.length ≤ 2) (hoffset : offset ≤ 65535) :
    recordLayer table summary offset layer =
      .ok (Dissection.recordLayer table summary offset layer) := by
  -- The offset is captured and the span short, so no end within the header is far from either.
  have hspan := hnear.span_lt
  have hbound : 3 * table.size ≤ 96 := Nat.mul_le_mul_left 3 h.size_le
  unfold Layer.span at hspan
  unfold recordLayer Dissection.recordLayer
  dsimp only
  rw [add?_eq h, ok_bind]
  cases hadd : table.add? ⟨layer.kind.id, offset, layer.length⟩ with
  | none => rfl
  | some added =>
      have hregular := (RecordTable.takes_add? h hadd).regular
      have hmembers := (RecordTable.takes_recordMembers hregular offset layer.members).regular
      have hadded := (hcounts.addLayer layer layer.marks).mono (Nat.add_le_add_left hmarks _)
      dsimp only
      rw [addLayer_eq hcounts layer (by omega), ok_bind,
        recordMembers_eq hregular hnear.members (by omega), ok_bind, word_eq (by omega), ok_bind]
      cases htrailers : layer.trailers with
      | none => rfl
      | some trailers =>
          have htrailed := le_stop_recordTrailers (added.recordMembers offset layer.members).table
            (offset + layer.length) trailers
          have htrail : ((added.recordMembers offset layer.members).table.recordTrailers
              (offset + layer.length) trailers).table.Regular :=
            (RecordTable.recordTrailers_reaches _ _ _).regular hmembers
          have hfragment := fragmentMarks_length_le
            ((added.recordMembers offset layer.members).table.recordTrailers
              (offset + layer.length) trailers).fragment
          rw [htrailers, Option.getD_some] at hspan
          dsimp only
          rw [recordTrailers_eq hmembers (hnear.trailers _ htrailers) (by omega), ok_bind,
            less_eq (by omega), ok_bind, recordResize_eq htrail, ok_bind,
            addLayer_eq hadded layer (by omega)]
          rfl

theorem counts_recordLayer {summary : Summary} (hcounts : summary.Counts (3 * table.size))
    (offset : Nat) {layer : Layer} (hmarks : layer.marks.length ≤ 2) :
    (Dissection.recordLayer table summary offset layer).summary.Counts
      (3 * (Dissection.recordLayer table summary offset layer).table.size) := by
  unfold Dissection.recordLayer
  dsimp only
  split
  · exact hcounts
  · rename_i added hadd
    have hsize := RecordTable.size_of_add? hadd
    have hsummary := (hcounts.addLayer layer layer.marks).mono (Nat.add_le_add_left hmarks _)
    have hmembers : added.Reaches (added.recordMembers offset layer.members).table :=
      RecordTable.recordEntries_reaches _ _ _ _
    split
    · have hnext := hmembers.size_le
      exact hsummary.mono (by dsimp only; omega)
    · rename_i trailers htrailers
      generalize htrail : (added.recordMembers offset layer.members).table.recordTrailers
        (offset + layer.length) trailers = trail
      have htrailed : added.Reaches trail.table :=
        htrail ▸ hmembers.trans (RecordTable.recordTrailers_reaches _ _ _)
      have hnext := RecordTable.Reaches.size_le (htrailed.trans
        (RecordTable.recordResize_reaches _ table.size (trail.stop - offset)))
      have hfragment := fragmentMarks_length_le trail.fragment
      exact (hsummary.addLayer layer _).mono (by dsimp only; omega)

theorem recordLayers_eq (h : table.Regular) {summary : Summary}
    (hcounts : summary.Counts (3 * table.size)) {layers : List Layer}
    (hnear : ∀ layer ∈ layers, layer.Near) (hmarks : ∀ layer ∈ layers, layer.marks.length ≤ 2)
    (hoffset : offset ≤ 65535) :
    recordLayers table summary offset layers =
      .ok (Dissection.recordLayers table summary offset layers) := by
  induction layers generalizing table summary offset with
  | nil => rfl
  | cons layer rest ih =>
      rw [List.forall_mem_cons] at hnear hmarks
      unfold recordLayers Dissection.recordLayers
      dsimp only
      rw [recordLayer_eq h hcounts hnear.1 hmarks.1 hoffset, ok_bind]
      cases hreached : (Dissection.recordLayer table summary offset layer).reached with
      | none => rfl
      | some stop =>
          have hstop := (RecordTable.reached_recordLayer_le hreached).trans h.limit_le
          have hregular := (recordLayer_reaches table summary offset layer).regular h
          have hcounts := counts_recordLayer hcounts offset hmarks.1
          dsimp only
          rw [ih hregular hcounts hnear.2 hmarks.2 hstop]
          rfl

theorem recordPlaces_eq (h : table.Regular) (places : List Placement) :
    recordPlaces table places = .ok (table.recordPlaces places) := by
  induction places generalizing table with
  | nil => rfl
  | cons place rest ih =>
      unfold recordPlaces RecordTable.recordPlaces
      rw [add?_eq h, ok_bind]
      cases hadd : table.add? place with
      | none =>
          dsimp only
          rw [ih h]
          rfl
      | some added =>
          dsimp only
          rw [ih (RecordTable.takes_add? h hadd).regular]
          rfl

end Recording

end Checked

end Dissection

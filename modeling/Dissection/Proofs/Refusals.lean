import Dissection.Proofs.Consultation

namespace Dissection

/-- Whether a record that an event asks for is added. -/
def Event.attempt? : Event → Option Bool
  | .added _ _ => some true
  | .refused _ _ _ => some false
  | _ => none

/-- The attempts to add a record in the course of events. -/
def attempts (events : List Event) : List Bool :=
  events.filterMap Event.attempt?

@[simp] theorem attempts_append (events behind : List Event) :
    attempts (events ++ behind) = attempts events ++ attempts behind :=
  List.filterMap_append

/-- An event other than that of another length being refused to a record. -/
def Event.Sure : Event → Prop
  | .unresizable _ _ => False
  | _ => True

/-- How the attempts of recording something end. Where recording goes on behind a refusal,
it was for want of room, and where a second attempt is made, it is refused too and the
last. -/
inductive Settles (goesOn full : Prop) : List Bool → Prop
  | granted : Settles goesOn full []
  | once (hfull : goesOn → full) : Settles goesOn full [false]
  | twice (hfull : full) (hstops : ¬goesOn) : Settles goesOn full [false, false]
  | cons {tries : List Bool} (h : Settles goesOn full tries) : Settles goesOn full (true :: tries)

/-- The attempts of recording something where there is no room. -/
def Spent (goesOn : Prop) (tries : List Bool) : Prop :=
  tries = [] ∨ tries = [false] ∧ ¬goesOn

namespace Settles

variable {goesOn full other : Prop} {tries : List Bool}

theorem mono (h : Settles goesOn full tries) (himp : other → goesOn) :
    Settles other full tries := by
  induction h with
  | granted => exact .granted
  | once hfull => exact .once (hfull ∘ himp)
  | twice hfull hstops => exact .twice hfull (hstops ∘ himp)
  | cons _ ih => exact .cons ih

theorem append {still : Prop} {more : List Bool} (h : Settles goesOn full tries)
    (hgoesOn : goesOn) (hspent : full → still ∧ Spent other more)
    (hmore : Settles other still more) : Settles other still (tries ++ more) := by
  induction h with
  | granted => exact hmore
  -- Only without room does recording go on behind a refusal.
  | once hfull =>
      obtain ⟨hstill, rfl | ⟨rfl, hstops⟩⟩ := hspent (hfull hgoesOn)
      · exact .once fun _ => hstill
      · exact .twice hstill hstops
  | twice _ hstops => exact absurd hgoesOn hstops
  | cons _ ih => exact .cons ih

theorem exists_replicate (h : Settles goesOn full tries) :
    ∃ granted refused, tries = List.replicate granted true ++ List.replicate refused false ∧
      refused ≤ 2 ∧ (refused = 2 → full) := by
  induction h with
  | granted => exact ⟨0, 0, rfl, by decide, nofun⟩
  | once _ => exact ⟨0, 1, rfl, by decide, nofun⟩
  | twice hfull _ => exact ⟨0, 2, rfl, by decide, fun _ => hfull⟩
  | cons _ ih =>
      obtain ⟨granted, refused, rfl, hrefused⟩ := ih
      exact ⟨granted + 1, refused, rfl, hrefused⟩

end Settles

namespace RecordTable

variable {table : RecordTable}

theorem Takes.isFull {places : List Placement} {next : RecordTable}
    (h : table.Takes places next) (hfull : table.isFull = true) : next.isFull = true := by
  have hsize := h.regular.size_le
  simp only [RecordTable.isFull, decide_eq_true_eq] at hfull ⊢
  rw [size_eq_length_places] at hfull hsize ⊢
  rw [h.places_eq, List.length_append] at hsize ⊢
  omega

theorem add?_of_isFull (hfull : table.isFull = true) (place : Placement) :
    table.add? place = none := by
  rw [add?, hfull]
  rfl

theorem isFull_of_none (h : table.Regular) {place : Placement} (hadd : table.add? place = none)
    (hfit : place.stop ≤ table.limit) : table.isFull = true := by
  have hlimit := h.limit_le
  rw [← Option.not_isSome_iff_eq_none, add?_isSome_iff] at hadd
  unfold Placement.stop at hfit
  rw [isFull, decide_eq_true_eq]
  by_contra hroom
  exact hadd ⟨hroom, by omega, by omega, hfit⟩

theorem settles_recordEntries (h : table.Regular) (offset : Nat) (fault : Option Note)
    (entries : List Entry) :
    Settles (∀ piece ∈ entryPieces offset entries, piece.place.stop ≤ table.limit)
      ((table.recordEntries offset fault entries).table.isFull = true)
      (attempts (table.recordEntries offset fault entries).events) := by
  induction entries generalizing table offset with
  | nil => cases fault <;> exact .granted
  | cons entry rest ih =>
      cases hfinding : entry.finding with
      | skipped note =>
          simp only [recordEntries, entryPieces, hfinding]
          exact ih h _
      | known id =>
          simp only [recordEntries, entryPieces, hfinding]
          cases hadd : table.add? ⟨id, offset, entry.length⟩ with
          | none =>
              exact .once fun hfit => isFull_of_none h hadd (List.forall_mem_cons.mp hfit).1
          | some added =>
              have htakes := takes_add? h hadd
              have hbehind := ih htakes.regular (offset + entry.length)
              rw [htakes.limit_eq] at hbehind
              exact .cons (hbehind.mono fun hfit => (List.forall_mem_cons.mp hfit).2)

theorem settles_recordMembers {added : RecordTable} {place : Placement} (h : table.Regular)
    (hadd : table.add? place = some added) (members : Members) :
    Settles (members.Within place.length)
      ((added.recordMembers place.offset members).table.isFull = true)
      (attempts (added.recordMembers place.offset members).events) := by
  have htakes := takes_add? h hadd
  refine (settles_recordEntries htakes.regular _ _ _).mono fun hwithin piece hpiece => ?_
  rw [htakes.limit_eq]
  exact (Members.stop_le_of_mem_pieces hwithin hpiece).trans (stop_le_of_add? hadd)

theorem spent_recordTrailers (hfull : table.isFull = true) (offset : Nat)
    (trailers : List Trailer) :
    Spent ((table.recordTrailers offset trailers).complete = true)
      (attempts (table.recordTrailers offset trailers).events) := by
  cases trailers with
  | nil => exact .inl rfl
  | cons trailer rest =>
      simp only [recordTrailers, add?_of_isFull hfull]
      exact .inr ⟨rfl, Bool.false_ne_true⟩

theorem settles_recordTrailers (h : table.Regular) (offset : Nat) {trailers : List Trailer}
    (hwithin : ∀ trailer ∈ trailers, trailer.members.Within trailer.length) :
    Settles ((table.recordTrailers offset trailers).complete = true)
      ((table.recordTrailers offset trailers).table.isFull = true)
      (attempts (table.recordTrailers offset trailers).events) := by
  induction trailers generalizing table offset with
  | nil => exact .granted
  | cons trailer rest ih =>
      rw [List.forall_mem_cons] at hwithin
      cases hadd : table.add? ⟨trailer.id, offset, trailer.length⟩ with
      | none =>
          simp only [recordTrailers, hadd]
          exact .once nofun
      | some added =>
          have htakes := takes_add? h hadd
          have hmembers := takes_recordMembers htakes.regular offset trailer.members
          have hsettles := settles_recordMembers h hadd trailer.members
          have htrail := trails_recordTrailers hmembers.regular (offset + trailer.length) hwithin.2
          have hbehind := ih hmembers.regular (offset + trailer.length) hwithin.2
          simp only [recordTrailers, hadd]
          rw [List.cons_append, ← List.singleton_append, attempts_append, attempts_append]
          exact .cons (hsettles.append hwithin.1
            (fun hfull => ⟨htrail.takes.isFull hfull, spent_recordTrailers hfull _ _⟩) hbehind)

theorem size_recordResize (index length : Nat) :
    (table.recordResize index length).table.size = table.size := by
  unfold recordResize
  split
  · rfl
  · rename_i hresize
    obtain ⟨_, _, _, rfl⟩ := resize?_eq_some_iff.mp hresize
    exact List.length_set

theorem isFull_recordResize (index length : Nat) :
    (table.recordResize index length).table.isFull = table.isFull := by
  rw [isFull, isFull, size_recordResize]

theorem attempts_recordResize (index length : Nat) :
    attempts (table.recordResize index length).events = [] := by
  unfold recordResize
  split <;> rfl

theorem settles_recordLayer (h : table.Regular) (summary : Summary) (offset : Nat) {layer : Layer}
    (hclosed : layer.Closed) :
    Settles (layer.members.Within layer.length ∧
        (recordLayer table summary offset layer).reached ≠ none)
      ((recordLayer table summary offset layer).table.isFull = true)
      (attempts (recordLayer table summary offset layer).events) := by
  cases hadd : table.add? ⟨layer.kind.id, offset, layer.length⟩ with
  | none =>
      simp only [recordLayer, hadd]
      exact .once fun hgoesOn => absurd rfl hgoesOn.2
  | some added =>
      have htakes := takes_add? h hadd
      have hmembers := takes_recordMembers htakes.regular offset layer.members
      have hsettles := settles_recordMembers h hadd layer.members
      cases htrailers : layer.trailers with
      | none =>
          simp only [recordLayer, hadd, htrailers]
          exact .cons (hsettles.mono And.left)
      | some trailers =>
          obtain ⟨hwithin, htrailed⟩ := hclosed.within htrailers
          have htrail := trails_recordTrailers hmembers.regular (offset + layer.length) htrailed
          have hbehind := settles_recordTrailers hmembers.regular (offset + layer.length) htrailed
          simp only [recordLayer, hadd, htrailers]
          rw [attempts_append, attempts_recordResize, List.append_nil, isFull_recordResize,
            List.cons_append, ← List.singleton_append, attempts_append, attempts_append]
          refine .cons ((hsettles.append hwithin
            (fun hfull => ⟨htrail.takes.isFull hfull, spent_recordTrailers hfull _ _⟩)
              hbehind).mono fun hgoesOn => ?_)
          by_contra hincomplete
          exact hgoesOn.2 (if_neg hincomplete)

end RecordTable

theorem spent_recordLayers {table : RecordTable} (hfull : table.isFull = true) (summary : Summary)
    (offset : Nat) (layers : List Layer) :
    Spent False (attempts (recordLayers table summary offset layers).events) := by
  cases layers with
  | nil => exact .inl rfl
  | cons layer rest =>
      simp only [recordLayers, recordLayer, RecordTable.add?_of_isFull hfull]
      exact .inr ⟨rfl, id⟩

theorem settles_recordLayers {table : RecordTable} (h : table.Regular) (summary : Summary)
    (offset : Nat) {layers : List Layer} (hclosed : ClosedChain layers) :
    Settles False ((recordLayers table summary offset layers).table.isFull = true)
      (attempts (recordLayers table summary offset layers).events) := by
  induction layers generalizing table summary offset with
  | nil => exact .granted
  | cons layer rest ih =>
      obtain ⟨hlayer, hlast, hrest⟩ := hclosed
      have hlays := RecordTable.lays_recordLayer h summary offset hlayer
      have hsettles := RecordTable.settles_recordLayer h summary offset hlayer
      unfold recordLayers
      dsimp only
      split
      · exact hsettles.mono False.elim
      · rename_i stop hreached
        have htakes := takes_recordLayers hlays.takes.regular
          (recordLayer table summary offset layer).summary stop hrest
        have hbehind := ih hlays.takes.regular
          (recordLayer table summary offset layer).summary stop hrest
        dsimp only
        rw [attempts_append]
        -- Members that may reach beyond their header are those of the last layer.
        rcases hlast with rfl | hwithin
        · rw [show attempts (recordLayers _ _ stop []).events = [] from rfl, List.append_nil]
          exact hsettles.mono False.elim
        · exact hsettles.append ⟨hwithin, by simp [hreached]⟩
            (fun hfull => ⟨htakes.isFull hfull, spent_recordLayers hfull _ _ _⟩) hbehind

section Sure

variable {table : RecordTable}

theorem sure_recordEntries (table : RecordTable) (offset : Nat) (fault : Option Note)
    (entries : List Entry) :
    ∀ event ∈ (table.recordEntries offset fault entries).events, event.Sure := by
  induction entries generalizing table offset with
  | nil =>
      intro event hevent
      obtain ⟨note, _, rfl⟩ := Option.map_eq_some_iff.mp (Option.mem_toList.mp hevent)
      trivial
  | cons entry rest ih =>
      unfold RecordTable.recordEntries
      split
      · exact List.forall_mem_cons.mpr ⟨trivial, ih _ _⟩
      · dsimp only
        split
        · exact List.forall_mem_singleton.mpr trivial
        · exact List.forall_mem_cons.mpr ⟨trivial, ih _ _⟩

theorem sure_recordTrailers (table : RecordTable) (offset : Nat) (trailers : List Trailer) :
    ∀ event ∈ (table.recordTrailers offset trailers).events, event.Sure := by
  induction trailers generalizing table offset with
  | nil => exact List.forall_mem_nil _
  | cons trailer rest ih =>
      unfold RecordTable.recordTrailers
      dsimp only
      split
      · exact List.forall_mem_singleton.mpr trivial
      · rw [List.cons_append, List.forall_mem_cons, List.forall_mem_append]
        exact ⟨trivial, sure_recordEntries _ _ _ _, ih _ _⟩

theorem sure_recordLayer (h : table.Regular) (summary : Summary) (offset : Nat) {layer : Layer}
    (hclosed : layer.Closed) :
    ∀ event ∈ (recordLayer table summary offset layer).events, event.Sure := by
  cases hadd : table.add? ⟨layer.kind.id, offset, layer.length⟩ with
  | none =>
      simp only [recordLayer, hadd]
      exact List.forall_mem_singleton.mpr trivial
  | some added =>
      have htakes := RecordTable.takes_add? h hadd
      have hmembers := RecordTable.takes_recordMembers htakes.regular offset layer.members
      cases htrailers : layer.trailers with
      | none =>
          simp only [recordLayer, hadd, htrailers]
          exact List.forall_mem_cons.mpr ⟨trivial, sure_recordEntries _ _ _ _⟩
      | some trailers =>
          obtain ⟨htrail, hfit⟩ := RecordTable.trails_layer h hclosed htrailers hadd
          obtain ⟨_, _, hresize⟩ := RecordTable.resize?_of_takes _
            (htakes.trans (hmembers.trans htrail.takes)) hfit
          simp only [recordLayer, hadd, htrailers, RecordTable.recordResize, hresize]
          rw [List.forall_mem_append, List.forall_mem_append, List.forall_mem_cons]
          exact ⟨⟨⟨trivial, sure_recordEntries _ _ _ _⟩, sure_recordTrailers _ _ _⟩,
            List.forall_mem_singleton.mpr trivial⟩

theorem sure_recordLayers (h : table.Regular) (summary : Summary) (offset : Nat)
    {layers : List Layer} (hclosed : ClosedChain layers) :
    ∀ event ∈ (recordLayers table summary offset layers).events, event.Sure := by
  induction layers generalizing table summary offset with
  | nil => exact List.forall_mem_nil _
  | cons layer rest ih =>
      obtain ⟨hlayer, _, hrest⟩ := hclosed
      have hlays := RecordTable.lays_recordLayer h summary offset hlayer
      have hsure := sure_recordLayer h summary offset hlayer
      unfold recordLayers
      dsimp only
      split
      · exact hsure
      · rw [List.forall_mem_append]
        exact ⟨hsure, ih hlays.takes.regular _ _ hrest⟩

end Sure

theorem countP_isRefused {events : List Event} (h : ∀ event ∈ events, event.Sure) :
    events.countP Event.isRefused = (attempts events).count false := by
  induction events with
  | nil => rfl
  | cons event rest ih =>
      rw [List.forall_mem_cons] at h
      rw [List.countP_cons, ih h.2]
      cases event with
      | unresizable index length => exact h.1.elim
      | refused place held limit => exact (List.count_cons_self ..).symm
      | added place index => exact (List.count_cons_of_ne (by decide)).symm
      | _ => rfl

/-- The refusals in the course of the events that leave a table. -/
structure Refusals (table : RecordTable) (events : List Event) : Prop where
  /-- No record is added behind one that is refused, and the second refusal is the last. -/
  final : ∃ granted refused, attempts events =
      List.replicate granted true ++ List.replicate refused false ∧
    refused ≤ 2 ∧ (refused = 2 → table.isFull = true) ∧
      events.countP Event.isRefused = refused
  /-- No length is refused. -/
  sure : ∀ event ∈ events, event.Sure

theorem Refusals.of_settles {table : RecordTable} {events : List Event} (offset : Nat)
    (note : Option Note) (h : Settles False (table.isFull = true) (attempts events))
    (hsure : ∀ event ∈ events, event.Sure) :
    Refusals table (events ++ (note.map (Event.noted offset)).toList) := by
  have hnote : attempts (note.map (Event.noted offset)).toList = [] ∧
      ∀ event ∈ (note.map (Event.noted offset)).toList, event.Sure := by
    cases note with
    | none => exact ⟨rfl, List.forall_mem_nil _⟩
    | some note => exact ⟨rfl, List.forall_mem_singleton.mpr trivial⟩
  have hall : ∀ event ∈ events ++ (note.map (Event.noted offset)).toList, event.Sure :=
    List.forall_mem_append.mpr ⟨hsure, hnote.2⟩
  obtain ⟨granted, refused, htries, hrefused, hfull⟩ := h.exists_replicate
  have hattempts : attempts (events ++ (note.map (Event.noted offset)).toList) =
      List.replicate granted true ++ List.replicate refused false := by
    rw [attempts_append, hnote.1, List.append_nil, htries]
  refine ⟨⟨granted, refused, hattempts, hrefused, hfull, ?_⟩, hall⟩
  rw [countP_isRefused hall, hattempts, List.count_append, List.count_replicate,
    List.count_replicate_self, if_neg (by decide), Nat.zero_add]

theorem events_conclude_none (captured : Bytes) (table : RecordTable) (offset : Nat)
    (ending : Ending) :
    ∃ note : Option Note, (conclude none captured table offset ending).events =
      (note.map (Event.noted offset)).toList := by
  cases ending with
  | silent => exact ⟨none, rfl⟩
  | remark note => exact ⟨some note, rfl⟩
  | unclaimed hook => exact ⟨hook.note?, rfl⟩

namespace Dissector

/-- Without an extension, every dissection ends with the first record that is refused, or
the second if the table is full, and no header is refused the length it is widened to. -/
theorem refusals_dissect {dissector : Dissector} (hextension : dissector.extension = none)
    (frame : Bytes) (timestamp : UInt64) (captured wire : Nat) :
    let outcome := dissector.dissect frame timestamp captured wire
    Refusals outcome.dissector.table outcome.events := by
  intro outcome
  cases h : dissector.captured? frame captured wire with
  | error error =>
      have houtcome : outcome = _ := dissect_of_error timestamp h
      rw [houtcome]
      exact ⟨⟨0, 0, rfl, by decide, nofun, rfl⟩, List.forall_mem_nil _⟩
  | ok bytes =>
      obtain ⟨progress, ending, hchain⟩ : ∃ progress ending,
          recordChain (.empty captured dissector.settings.defaultMask) .blank bytes 0
            (.ethernet dissector.settings.datalink) = (progress, ending) := ⟨_, _, rfl⟩
      have houtcome : outcome = _ := dissect_eq_concluded dissector timestamp h hchain
      have hregular := regular_empty dissector.settings.defaultMask (captured?_eq_ok_iff.mp h).2.1
      have hclosed := chain_closed (.ethernet dissector.settings.datalink) (bytes.drop 0)
      have hsettles := settles_recordLayers hregular .blank 0 hclosed
      have hsure := sure_recordLayers hregular .blank 0 hclosed
      obtain ⟨note, hnote⟩ :=
        events_conclude_none bytes progress.table (progress.reached.getD 0) ending
      rw [(Prod.mk.inj hchain).1] at hsettles hsure
      rw [houtcome, hextension]
      change Refusals (conclude none _ _ _ _).table
        (progress.events ++ (conclude none _ _ _ _).events)
      rw [conclude_none, hnote]
      exact .of_settles _ note hsettles hsure

/-- A frame with an IPv4 header of forty options and a UDP header behind it. -/
def crowdedFrame : Bytes :=
  List.replicate 12 0 ++ [0x08, 0, 0x4F, 0, 0, 0, 0, 0, 0, 0, 64, 17, 0, 0] ++
    List.replicate 8 0 ++ List.replicate 40 1 ++ List.replicate 8 0

theorem refusals_crowdedFrame :
    let outcome := (new .default).dissect crowdedFrame 0 82 82
    (new .default).extension = none ∧
      attempts outcome.events = List.replicate 32 true ++ List.replicate 2 false ∧
        Refusals outcome.dissector.table outcome.events :=
  ⟨rfl, by decide, refusals_dissect rfl crowdedFrame 0 82 82⟩

end Dissector

end Dissection

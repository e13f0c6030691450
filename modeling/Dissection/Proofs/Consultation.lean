import Mathlib.Tactic.ByContra
import Dissection.Proofs.HookSites

/-!
Extensions can only append. A dissection asks its extension at most once, where its walk along the
headers comes upon one that is not known, and is the dissection without it with the places recorded
that the extension asked for (`appends_dissect`).
-/

namespace Dissection

/-- The offer that an event makes, with its answer. -/
def Event.consultation? : Event → Option (Offer × Answer)
  | .consulted offer answer => some (offer, answer)
  | _ => none

/-- The place that an event records. -/
def Event.addition? : Event → Option Placement
  | .added place _ => some place
  | _ => none

/-- The offers made in the course of events, with their answers. -/
def consultations (events : List Event) : List (Offer × Answer) :=
  events.filterMap Event.consultation?

/-- The places recorded in the course of events. -/
def additions (events : List Event) : List Placement :=
  events.filterMap Event.addition?

@[simp] theorem consultations_append (events behind : List Event) :
    consultations (events ++ behind) = consultations events ++ consultations behind :=
  List.filterMap_append

@[simp] theorem additions_append (events behind : List Event) :
    additions (events ++ behind) = additions events ++ additions behind :=
  List.filterMap_append

namespace RecordTable

section Unasked

variable (table : RecordTable) (offset : Nat)

theorem consultations_recordEntries (fault : Option Note) (entries : List Entry) :
    consultations (table.recordEntries offset fault entries).events = [] := by
  induction entries generalizing table offset with
  | nil => cases fault <;> rfl
  | cons entry rest ih =>
      unfold recordEntries
      split
      · exact ih _ _
      · dsimp only
        split
        · rfl
        · exact ih _ _

theorem consultations_recordTrailers (trailers : List Trailer) :
    consultations (table.recordTrailers offset trailers).events = [] := by
  induction trailers generalizing table offset with
  | nil => rfl
  | cons trailer rest ih =>
      unfold recordTrailers
      dsimp only
      split
      · rfl
      · rw [List.cons_append, ← List.singleton_append, consultations_append,
          consultations_append, ih, recordMembers, consultations_recordEntries]
        rfl

theorem consultations_recordResize (index length : Nat) :
    consultations (table.recordResize index length).events = [] := by
  unfold recordResize
  split <;> rfl

theorem consultations_recordLayer (summary : Summary) (layer : Layer) :
    consultations (recordLayer table summary offset layer).events = [] := by
  unfold recordLayer
  dsimp only
  split
  · rfl
  · split
    · rw [← List.singleton_append, consultations_append, recordMembers,
        consultations_recordEntries]
      rfl
    · rw [← List.singleton_append, consultations_append, consultations_append,
        consultations_append, recordMembers, consultations_recordEntries,
        consultations_recordTrailers, consultations_recordResize]
      rfl

theorem consultations_recordLayers (summary : Summary) (layers : List Layer) :
    consultations (recordLayers table summary offset layers).events = [] := by
  induction layers generalizing table summary offset with
  | nil => rfl
  | cons layer rest ih =>
      unfold recordLayers
      dsimp only
      split
      · exact consultations_recordLayer _ _ _ _
      · rw [consultations_append, consultations_recordLayer, ih]
        rfl

end Unasked

section Asked

/-- The places, of those that are asked for one after the other, that a table takes. -/
def granted (table : RecordTable) (places : List Placement) : List Placement :=
  (places.filter fun place => table.fits place.offset place.length).take table.room

variable {table : RecordTable}

theorem granted_of_none {place : Placement} (h : table.add? place = none)
    (rest : List Placement) : table.granted (place :: rest) = table.granted rest := by
  have hrefused : table.room = 0 ∨ table.fits place.offset place.length = false := by
    by_contra hgrant
    rw [not_or, Bool.not_eq_false] at hgrant
    have hadd := add?_eq_some_iff.mpr ⟨fun hfull => hgrant.1 (by rw [room, hfull, Nat.sub_self]),
      hgrant.2, rfl⟩
    cases h.symm.trans hadd
  unfold granted
  rcases hrefused with hroom | hfits
  · simp [hroom]
  · rw [List.filter_cons_of_neg (by simp [hfits])]

theorem granted_of_some {place : Placement} {added : RecordTable} (hsize : table.size ≤ capacity)
    (h : table.add? place = some added) (rest : List Placement) :
    table.granted (place :: rest) = place :: added.granted rest := by
  obtain ⟨hroom, hfits, rfl⟩ := add?_eq_some_iff.mp h
  have hcount : table.room = RecordTable.room
      { table with
        records := table.records ++ [Record.ofNats place.id place.offset place.length]
        mask := table.mask ||| place.id.maskBit } + 1 := by
    simp only [room, size, List.length_append, List.length_singleton] at hsize hroom ⊢
    omega
  rw [granted, List.filter_cons, if_pos hfits, hcount, List.take_succ_cons]
  rfl

/-- What comes of asking for places one after the other. -/
structure Grants (table : RecordTable) (places : List Placement) (recorded : Recorded) : Prop where
  records_eq : recorded.table.records = table.records ++
    (table.granted places).map fun place => Record.ofNats place.id place.offset place.length
  additions_eq : additions recorded.events = table.granted places
  consultations_eq : consultations recorded.events = []

theorem grants_recordPlaces (hsize : table.size ≤ capacity) (places : List Placement) :
    table.Grants places (table.recordPlaces places) := by
  induction places generalizing table with
  | nil =>
      refine ⟨?_, ?_, rfl⟩
      · rw [granted, List.filter_nil, List.take_nil]
        exact (List.append_nil _).symm
      · rw [granted, List.filter_nil, List.take_nil]
        rfl
  | cons place rest ih =>
      unfold recordPlaces
      cases hadd : table.add? place with
      | none =>
          obtain ⟨hrecords, hadditions, hconsultations⟩ := ih hsize
          rw [← granted_of_none hadd] at hrecords hadditions
          exact ⟨hrecords, hadditions, hconsultations⟩
      | some added =>
          obtain ⟨hroom, hfits, heq⟩ := add?_eq_some_iff.mp hadd
          have hadded : added.size ≤ capacity := by
            rw [heq]
            simp only [size, List.length_append, List.length_singleton] at hsize hroom ⊢
            omega
          obtain ⟨hrecords, hadditions, hconsultations⟩ := ih hadded
          refine ⟨?_, ?_, hconsultations⟩
          · rw [granted_of_some hsize hadd, hrecords, heq, List.map_cons, List.append_assoc]
            rfl
          · rw [granted_of_some hsize hadd, ← hadditions]
            rfl

end Asked

end RecordTable

section Reached

variable {table : RecordTable}

theorem reached_recordLayer (h : table.Regular) (summary : Summary) (offset : Nat)
    {layer : Layer} (hshaped : layer.Shaped) {stop : Nat}
    (hreached : (recordLayer table summary offset layer).reached = some stop) :
    ∃ length owned, (recordLayer table summary offset layer).table.places =
        table.places ++ ⟨layer.kind.id, offset, length⟩ :: owned ∧
      offset + length = stop ∧ ∀ place ∈ owned, place.isCore = false := by
  obtain ⟨hmembers, htrailers⟩ := hshaped.notCore
  unfold recordLayer at hreached ⊢
  dsimp only at hreached ⊢
  cases hadd : table.add? ⟨layer.kind.id, offset, layer.length⟩ with
  | none =>
      rw [hadd] at hreached
      cases hreached
  | some added =>
      have htakes := RecordTable.takes_add? h hadd
      have hcarried := RecordTable.takes_recordMembers htakes.regular offset layer.members
      have hplain : ∀ place ∈ (added.taken (layer.members.pieces offset)).map Piece.place,
          place.isCore = false := by
        intro place hplace
        obtain ⟨piece, hpiece, rfl⟩ := List.mem_map.mp hplace
        exact isCore_of_mem_pieces hmembers ((RecordTable.taken_front _ _).subset hpiece)
      cases hnone : layer.trailers with
      | none =>
          simp only [hadd, hnone, Option.some.injEq] at hreached ⊢
          exact ⟨layer.length, _, (htakes.trans hcarried).places_eq, hreached, hplain⟩
      | some trailers =>
          rw [hnone, Option.getD_some] at htrailers
          obtain ⟨htrail, hfit⟩ := RecordTable.trails_layer h hshaped.closed hnone hadd
          have hstop := htrail.stop_eq
          simp only [hadd, hnone] at hreached ⊢
          split at hreached
          · cases hreached
            refine ⟨_, _, (RecordTable.takes_recordResize _
              (htakes.trans (hcarried.trans htrail.takes)) hfit).places_eq, ?_, ?_⟩
            · omega
            · change ∀ place ∈ List.map Piece.place _ ++ List.map Piece.place _, _
              rw [List.forall_mem_append]
              refine ⟨hplain, ?_⟩
              intro place hplace
              obtain ⟨piece, hpiece, rfl⟩ := List.mem_map.mp hplace
              exact isCore_of_mem_trailerPieces htrailers
                ((RecordTable.taken_front _ _).subset hpiece)
          · cases hreached

theorem reached_recordLayers (h : table.Regular) (summary : Summary) (offset : Nat)
    {layers : List Layer} (hclosed : ClosedChain layers) (hshaped : ∀ layer ∈ layers, layer.Shaped)
    (hne : layers ≠ []) {stop : Nat}
    (hreached : (recordLayers table summary offset layers).reached = some stop) :
    ∃ before last owned, (recordLayers table summary offset layers).table.places =
        before ++ last :: owned ∧ last.isCore = true ∧ (∀ place ∈ owned, place.isCore = false) ∧
      last.stop = stop := by
  induction layers generalizing table summary offset with
  | nil => exact absurd rfl hne
  | cons layer rest ih =>
      rw [List.forall_mem_cons] at hshaped
      have hlays := RecordTable.lays_recordLayer h summary offset hclosed.1
      unfold recordLayers at hreached ⊢
      dsimp only at hreached ⊢
      cases hlayer : (recordLayer table summary offset layer).reached with
      | none =>
          rw [hlayer] at hreached
          cases hlayer.symm.trans hreached
      | some mid =>
          simp only [hlayer] at hreached ⊢
          cases rest with
          | nil =>
              cases hreached
              obtain ⟨length, owned, hplaces, hstop, howned⟩ :=
                reached_recordLayer h summary offset hshaped.1 hlayer
              exact ⟨_, _, owned, hplaces, layer.kind.isCore_id, howned, hstop⟩
          | cons next others =>
              exact ih hlays.takes.regular _ _ hclosed.2.2 hshaped.2 (List.cons_ne_nil _ _) hreached

end Reached

theorem unclaimed_recordChain {captured : Nat} (hcaptured : captured ≤ 65535) (mask : UInt64)
    (bytes : Bytes) (datalink : Datalink) {progress : Progress} {hook : Hook}
    (h : recordChain (.empty captured mask) .blank bytes 0 (.ethernet datalink) =
      (progress, .unclaimed hook)) :
    progress.table.Regular ∧ ∃ before last owned, progress.table.places = before ++ last :: owned ∧
      last.isCore = true ∧ (∀ place ∈ owned, place.isCore = false) ∧
        progress.reached = some last.stop := by
  obtain ⟨hprogress, hending⟩ := Prod.mk.inj h
  rw [List.drop_zero] at hprogress hending
  have hregular := Dissector.regular_empty mask hcaptured
  have hclosed := chain_closed (.ethernet datalink) bytes
  have htakes := takes_recordLayers hregular .blank 0 hclosed
  subst hprogress
  split at hending
  · rename_i hreached
    obtain ⟨stop, hstop⟩ := Option.isSome_iff_exists.mp hreached
    obtain ⟨marks, layers, hlayers⟩ := frameChain_eq datalink bytes
    have hne : (chain (.ethernet datalink) bytes).items ≠ [] := by
      rw [← frameChain, hlayers]
      exact List.cons_ne_nil _ _
    obtain ⟨before, last, owned, hplaces, hcore, howned, rfl⟩ := reached_recordLayers hregular
      .blank 0 hclosed (chain_shaped _ _) hne hstop
    exact ⟨htakes.regular, before, last, owned, hplaces, hcore, howned, hstop⟩
  · cases hending

theorem consults_conclude {table : RecordTable} (hsize : table.size ≤ RecordTable.capacity)
    (extension : Extension) (captured : Bytes) (offset : Nat) (hook : Hook) :
    let answer := extension.respond extension.past ⟨hook, captured, offset, table⟩
    let conclusion := conclude extension captured table offset (.unclaimed hook)
    conclusion.table.records = table.records ++ (table.granted answer.places).map
        (fun place => Record.ofNats place.id place.offset place.length) ∧
      additions conclusion.events = table.granted answer.places ∧
      consultations conclusion.events = [(⟨hook, captured, offset, table⟩, answer)] := by
  intro answer conclusion
  obtain ⟨hrecords, hadditions, hconsultations⟩ :=
    RecordTable.grants_recordPlaces hsize answer.places
  -- What is noted of bytes that are not recognized either is not an event of interest.
  have hnoted : ∀ recognized : Bool, ∃ events, consultations events = [] ∧ additions events = [] ∧
      (if recognized then [] else (hook.note?.map (Event.noted offset)).toList) = events := by
    intro recognized
    refine ⟨_, ?_, ?_, rfl⟩ <;> cases recognized <;> cases hook <;> rfl
  obtain ⟨events, hunasked, hunadded, hnote⟩ := hnoted answer.recognized
  have hevents : conclusion.events = [.consulted ⟨hook, captured, offset, table⟩ answer] ++
      (table.recordPlaces answer.places).events ++ events := by
    rw [← hnote]
    rfl
  refine ⟨hrecords, ?_, ?_⟩
  · rw [hevents, additions_append, additions_append, hadditions, hunadded, List.append_nil]
    rfl
  · rw [hevents, consultations_append, consultations_append, hconsultations, hunasked]
    rfl

/-- The extension that asks for the same places, but claims to recognize what it is told to
claim. -/
def Extension.claiming (extension : Extension) (claim : List Offer → Offer → Bool) : Extension :=
  { extension with
    respond := fun past offer => ⟨(extension.respond past offer).places, claim past offer⟩ }

/-- What a dissection is to another that recorded some places less. -/
structure Outcome.Continues (outcome plain : Outcome DissectError Nat) (places : List Placement) :
    Prop where
  result_eq : outcome.result = plain.result
  summary_eq : outcome.dissector.packet.summary = plain.dissector.packet.summary
  records_eq : outcome.dissector.table.records = plain.dissector.table.records ++
    places.map fun place => Record.ofNats place.id place.offset place.length
  additions_eq : additions outcome.events = additions plain.events ++ places

namespace Dissector

/-- The outcome of a dissection that recorded the layers of a packet and was concluded. -/
def concluded (dissector : Dissector) (timestamp : UInt64) (captured wire : Nat)
    (progress : Progress) (conclusion : Conclusion) : Outcome DissectError Nat where
  dissector :=
    { dissector with
      extension := conclusion.extension
      phase := .holding ⟨timestamp, captured, wire, progress.summary, conclusion.table⟩ }
  result := .ok (if progress.table.records.isEmpty then 0 else captured)
  events := progress.events ++ conclusion.events

theorem dissect_of_error {dissector : Dissector} {frame : Bytes} {captured wire : Nat}
    (timestamp : UInt64) {error : DissectError}
    (h : dissector.captured? frame captured wire = .error error) :
    dissector.dissect frame timestamp captured wire = ⟨dissector, .error error, []⟩ := by
  simp only [dissect, h]

theorem dissect_eq_concluded (dissector : Dissector) {frame bytes : Bytes} {captured wire : Nat}
    (timestamp : UInt64) (h : dissector.captured? frame captured wire = .ok bytes)
    {progress : Progress} {ending : Ending}
    (hchain : recordChain (.empty captured dissector.settings.defaultMask) .blank bytes 0
      (.ethernet dissector.settings.datalink) = (progress, ending)) :
    dissector.dissect frame timestamp captured wire =
      dissector.concluded timestamp captured wire progress (conclude dissector.extension bytes
        progress.table (progress.reached.getD 0) ending) := by
  simp only [dissect, h, hchain, concluded]

theorem exists_concluded (dissector : Dissector) {frame bytes : Bytes} {captured wire : Nat}
    (timestamp : UInt64) (h : dissector.captured? frame captured wire = .ok bytes) :
    ∃ ending, dissector.dissect frame timestamp captured wire =
      dissector.concluded timestamp captured wire (dissector.recorded bytes captured)
        (conclude dissector.extension bytes (dissector.recorded bytes captured).table
          ((dissector.recorded bytes captured).reached.getD 0) ending) :=
  ⟨_, dissect_eq_concluded dissector timestamp h rfl⟩

/-- The dissection of a packet by a walk that has the extension at hand, and asks it where it
stands. -/
def dissectAsking (dissector : Dissector) (frame : Bytes) (timestamp : UInt64)
    (captured wire : Nat) : Outcome DissectError Nat :=
  match dissector.captured? frame captured wire with
  | .error error => ⟨dissector, .error error, []⟩
  | .ok bytes =>
      let settings := dissector.settings
      let walked := walk dissector.extension bytes (.empty captured settings.defaultMask) .blank 0
        (.ethernet settings.datalink)
      { dissector :=
          { dissector with
            extension := walked.extension
            phase := .holding ⟨timestamp, captured, wire, walked.summary, walked.table⟩ }
        result := .ok (if walked.table.records.isEmpty then 0 else captured)
        events := walked.events }

theorem isEmpty_conclude {captured : Nat} (hcaptured : captured ≤ 65535) (mask : UInt64)
    (extension : Option Extension) (bytes : Bytes) (datalink : Datalink) {progress : Progress}
    {ending : Ending} (hchain : recordChain (.empty captured mask) .blank bytes 0
      (.ethernet datalink) = (progress, ending)) :
    let conclusion := conclude extension bytes progress.table (progress.reached.getD 0) ending
    conclusion.table.records.isEmpty = progress.table.records.isEmpty := by
  intro conclusion
  cases ending with
  | silent | remark note => rfl
  | unclaimed hook =>
      cases extension with
      | none => rfl
      | some extension =>
          obtain ⟨hregular, before, last, owned, hplaces, _⟩ :=
            unclaimed_recordChain hcaptured mask bytes datalink hchain
          have hrecorded : progress.table.records ≠ [] := by
            intro hempty
            simp [RecordTable.places, hempty] at hplaces
          have hrecords := (consults_conclude hregular.size_le extension bytes
            (progress.reached.getD 0) hook).1
          rw [hrecords, List.isEmpty_eq_false_iff.mpr hrecorded]
          exact List.isEmpty_eq_false_iff.mpr (List.append_ne_nil_of_left_ne_nil hrecorded _)

theorem dissect_eq_dissectAsking (dissector : Dissector) (frame : Bytes) (timestamp : UInt64)
    (captured wire : Nat) :
    dissector.dissect frame timestamp captured wire =
      dissector.dissectAsking frame timestamp captured wire := by
  unfold dissectAsking
  cases h : dissector.captured? frame captured wire with
  | error error => exact dissect_of_error timestamp h
  | ok bytes =>
      obtain ⟨_, hcaptured, _, hframe, rfl⟩ := captured?_eq_ok_iff.mp h
      obtain ⟨progress, ending, hchain⟩ : ∃ progress ending,
          recordChain (.empty captured dissector.settings.defaultMask) .blank (frame.take captured)
            0 (.ethernet dissector.settings.datalink) = (progress, ending) := ⟨_, _, rfl⟩
      have hlimit : captured = (frame.take captured).length :=
        (List.length_take_of_le hframe).symm
      have hempty := isEmpty_conclude hcaptured _ dissector.extension _ _ hchain
      rw [dissect_eq_concluded dissector timestamp h hchain]
      dsimp only
      rw [walk_eq _ (regular_empty _ hcaptured) hlimit _ (Nat.zero_le _), recordThenAsk, hchain]
      simp only [hempty]
      rfl

/-- A dissection with an extension consults it once or not at all, and is the one without it with
the places recorded that the extension is granted. It comes to what the walk comes to that asks the
extension where it stands. -/
theorem appends_dissect (dissector : Dissector) (extension : Extension) (frame : Bytes)
    (timestamp : UInt64) (captured wire : Nat) (claim : List Offer → Offer → Bool) :
    let plain := { dissector with extension := none }.dissect frame timestamp captured wire
    let extended := (dissector.setExtension extension).dissect frame timestamp captured wire
    let other := (dissector.setExtension (extension.claiming claim)).dissect frame timestamp
      captured wire
    (consultations extended.events = [] ∧ extended.Continues plain [] ∨
      ∃ offer before last owned,
        consultations extended.events = [(offer, extension.respond extension.past offer)] ∧
        offer.captured = frame.take captured ∧
        offer.table = plain.dissector.table ∧
        plain.dissector.table.places = before ++ last :: owned ∧ last.isCore = true ∧
        (∀ place ∈ owned, place.isCore = false) ∧ offer.offset = last.stop ∧
        extended.Continues plain (plain.dissector.table.granted
          (extension.respond extension.past offer).places)) ∧
      other.result = extended.result ∧ other.dissector.packet = extended.dissector.packet ∧
      extended =
        (dissector.setExtension extension).dissectAsking frame timestamp captured wire := by
  intro plain extended other
  have hasking : extended =
      (dissector.setExtension extension).dissectAsking frame timestamp captured wire :=
    dissect_eq_dissectAsking _ frame timestamp captured wire
  rw [← hasking]
  cases h : dissector.captured? frame captured wire with
  | error error =>
      have hplain : plain = _ := dissect_of_error timestamp h
      have hextended : extended = _ := dissect_of_error timestamp h
      have hother : other = _ := dissect_of_error timestamp h
      rw [hplain, hextended, hother]
      exact ⟨.inl ⟨rfl, rfl, rfl, (List.append_nil _).symm, rfl⟩, rfl, rfl, rfl⟩
  | ok bytes =>
      obtain ⟨progress, ending, hchain⟩ : ∃ progress ending,
          recordChain (.empty captured dissector.settings.defaultMask) .blank bytes 0
            (.ethernet dissector.settings.datalink) = (progress, ending) := ⟨_, _, rfl⟩
      have hconcluded (consulted : Option Extension) :
          { dissector with extension := consulted }.dissect frame timestamp captured wire =
            concluded { dissector with extension := consulted } timestamp captured wire progress
              (conclude consulted bytes progress.table (progress.reached.getD 0) ending) :=
        dissect_eq_concluded { dissector with extension := consulted } timestamp h hchain
      have hplain : plain = _ := hconcluded none
      have hextended : extended = _ := hconcluded extension
      have hother : other = _ := hconcluded (extension.claiming claim)
      have hunasked := RecordTable.consultations_recordLayers
        (.empty captured dissector.settings.defaultMask) 0 .blank
        (chain (.ethernet dissector.settings.datalink) (bytes.drop 0)).items
      rw [(Prod.mk.inj hchain).1] at hunasked
      obtain ⟨_, hcaptured, _, _, rfl⟩ := captured?_eq_ok_iff.mp h
      rw [hplain, hextended, hother]
      cases ending with
      | silent | remark note =>
          refine ⟨.inl ⟨?_, rfl, rfl, (List.append_nil _).symm, (List.append_nil _).symm⟩, rfl, rfl,
            rfl⟩
          rw [concluded, consultations_append, hunasked]
          rfl
      | unclaimed hook =>
          obtain ⟨hregular, before, last, owned, hplaces, hcore, howned, hreached⟩ :=
            unclaimed_recordChain hcaptured _ _ _ hchain
          rw [hreached, Option.getD_some]
          obtain ⟨hrecords, hadditions, hconsultations⟩ :=
            consults_conclude hregular.size_le extension (frame.take captured) last.stop hook
          refine ⟨.inr ⟨⟨hook, frame.take captured, last.stop, progress.table⟩, before, last, owned,
            ?_, rfl, rfl, hplaces, hcore, howned, rfl, rfl, rfl, hrecords, ?_⟩, rfl, rfl, rfl⟩
          · rw [concluded, consultations_append, hunasked, hconsultations]
            rfl
          · have hnoted : additions (conclude none (frame.take captured) progress.table last.stop
                (.unclaimed hook)).events = [] := by
              cases hook <;> rfl
            simp only [concluded, additions_append, hadditions, hnoted, List.append_nil]
            rfl

end Dissector

end Dissection

import Dissection.Extension

/-!
Recording: writing the layers of a chain into a record table. A header that is
refused ends the chain. A refused option ends the options of its header only. A
refused trailer ends the chain too, and its header is recorded up to the trailers
that were accepted. What happens on the way is told by events, off which the log
and the counters are read.
-/

namespace Dissection

/-- Something that happens while the headers of a frame are recorded. -/
inductive Event where
  /-- A record was appended at an index. -/
  | added (place : Placement) (index : Nat)
  /-- A record was refused by a table of `held` records. -/
  | refused (place : Placement) (held limit : Nat)
  /-- The record at an index was given another length. -/
  | resized (index length : Nat)
  /-- Another length was refused to the record at an index. -/
  | unresizable (index length : Nat)
  /-- Something was noticed at an offset. -/
  | noted (offset : Nat) (note : Note)
  /-- An extension was made an offer, and answered it. -/
  | consulted (offer : Offer) (answer : Answer)

namespace Event

/-- The log line of an event, if it calls for one. -/
def logLine? : Event → Option LogLine
  | .refused place held limit =>
      some ⟨.debug, s!"Rejected {place.id.describe} at {place.offset}+{place.length} " ++
        s!"(records: {held}, limit: {limit})"⟩
  | .noted offset note => some (note.logLine offset)
  | _ => none

def isAdded : Event → Bool
  | .added _ _ => true
  | _ => false

def isRefused : Event → Bool
  | .refused _ _ _ => true
  | .unresizable _ _ => true
  | _ => false

end Event

/-- A record table in which something was recorded, and the events of doing so. -/
structure Recorded where
  table : RecordTable
  events : List Event

namespace RecordTable

/-- The event of asking for a record that is refused. -/
def refusal (table : RecordTable) (place : Placement) : Event :=
  .refused place table.size table.limit

/-- Records entries laid end to end from an offset on, until one is refused. The
note behind the last entry is made only if none is. -/
def recordEntries (table : RecordTable) (offset : Nat) (fault : Option Note) :
    List Entry → Recorded
  | [] => ⟨table, (fault.map (.noted offset)).toList⟩
  | entry :: rest =>
      match entry.finding with
      | .skipped note =>
          let behind := table.recordEntries (offset + entry.length) fault rest
          ⟨behind.table, .noted offset note :: behind.events⟩
      | .known id =>
          let place : Placement := ⟨id, offset, entry.length⟩
          match table.add? place with
          | none => ⟨table, [table.refusal place]⟩
          | some added =>
              let behind := added.recordEntries (offset + entry.length) fault rest
              ⟨behind.table, .added place table.size :: behind.events⟩

def recordMembers (table : RecordTable) (offset : Nat) (members : Members) : Recorded :=
  table.recordEntries (offset + members.start) members.run.verdict members.run.items

/-- The outcome of recording what trails a header. -/
structure Trail extends Recorded where
  /-- Where the trailers that were accepted end. -/
  stop : Nat
  /-- What the last accepted Fragment header says. -/
  fragment : Option Fragment
  /-- Whether all were accepted. -/
  complete : Bool

/-- Records trailers laid end to end from an offset on, each with its members,
until one is refused. -/
def recordTrailers (table : RecordTable) (offset : Nat) : List Trailer → Trail
  | [] => ⟨⟨table, []⟩, offset, none, true⟩
  | trailer :: rest =>
      let place : Placement := ⟨trailer.id, offset, trailer.length⟩
      match table.add? place with
      | none => ⟨⟨table, [table.refusal place]⟩, offset, none, false⟩
      | some added =>
          let members := added.recordMembers offset trailer.members
          let behind := members.table.recordTrailers (offset + trailer.length) rest
          { behind with
            events := .added place table.size :: members.events ++ behind.events
            fragment := behind.fragment <|> trailer.fragment }

def recordResize (table : RecordTable) (index length : Nat) : Recorded :=
  match table.resize? index length with
  | none => ⟨table, [.unresizable index length]⟩
  | some resized => ⟨resized, [.resized index length]⟩

end RecordTable

/-- A record table and a summary in which layers were recorded. -/
structure Progress extends Recorded where
  summary : Summary
  /-- Where the layers end, if the chain may go on there. -/
  reached : Option Nat

/-- The summary with the facts that a layer establishes. A nested header
establishes none. -/
def Summary.addLayer (summary : Summary) (layer : Layer) (marks : List Mark) : Summary :=
  if layer.depth = 0 then summary.addAll marks else summary

def recordLayer (table : RecordTable) (summary : Summary) (offset : Nat)
    (layer : Layer) : Progress :=
  let place : Placement := ⟨layer.kind.id, offset, layer.length⟩
  match table.add? place with
  | none => ⟨⟨table, [table.refusal place]⟩, summary, none⟩
  | some added =>
      let summary := summary.addLayer layer layer.marks
      let members := added.recordMembers offset layer.members
      let events := .added place table.size :: members.events
      match layer.trailers with
      | none => ⟨⟨members.table, events⟩, summary, some (offset + layer.length)⟩
      | some trailers =>
          let trail := members.table.recordTrailers (offset + layer.length) trailers
          let resized := trail.table.recordResize table.size (trail.stop - offset)
          { table := resized.table
            events := events ++ trail.events ++ resized.events
            summary := summary.addLayer layer (trail.fragment.map .fragment).toList
            reached := if trail.complete then some trail.stop else none }

/-- Records layers from an offset on, until one is refused. -/
def recordLayers (table : RecordTable) (summary : Summary) (offset : Nat) :
    List Layer → Progress
  | [] => ⟨⟨table, []⟩, summary, some offset⟩
  | layer :: rest =>
      let progress := recordLayer table summary offset layer
      match progress.reached with
      | none => progress
      | some stop =>
          let behind := recordLayers progress.table progress.summary stop rest
          { behind with events := progress.events ++ behind.events }

end Dissection

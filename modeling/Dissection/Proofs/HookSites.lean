import Dissection.Proofs.Geometry

/-!
An extension that is asked on the way. `walk` has the extension at hand while it records header
after header, and turns to it where it stands as soon as a header is announced that is not known.
Nothing is recorded behind such a place, so the walk comes to what recording the whole chain and
then asking comes to (`walk_eq`).
-/

namespace Dissection

/-- What comes of asking an extension, and whether it recognized what it was asked about. -/
structure Asked extends Conclusion where
  recognized : Bool

/-- Asks the extension about the bytes at an offset, if there is one to ask. -/
def ask (extension : Option Extension) (captured : Bytes) (table : RecordTable) (offset : Nat)
    (hook : Hook) : Asked :=
  match extension with
  | none => ⟨⟨⟨table, []⟩, none⟩, false⟩
  | some asked =>
      let offer : Offer := ⟨hook, captured, offset, table⟩
      let answer := asked.respond asked.past offer
      let recorded := table.recordPlaces answer.places
      { table := recorded.table
        events := .consulted offer answer :: recorded.events
        extension := some { asked with past := offer :: asked.past }
        recognized := answer.recognized }

/-- Notes what was not recognized. -/
def Asked.orNote (asked : Asked) (offset : Nat) (note : Note) : Conclusion :=
  if asked.recognized then asked.toConclusion
  else { asked.toConclusion with events := asked.events ++ [.noted offset note] }

/-- What a walk along a chain of headers leaves behind. -/
structure Walked extends Conclusion where
  summary : Summary

/-- Walks along a chain of at most `room` headers. Each is recorded before the next is looked at,
and the extension is asked about a type, a protocol number and the ports of a datagram. -/
def walkUpTo (extension : Option Extension) (captured : Bytes) :
    Nat → RecordTable → Summary → Nat → Expected → Walked
  | 0, table, summary, _, _ => ⟨⟨⟨table, []⟩, extension⟩, summary⟩
  | room + 1, table, summary, offset, expected =>
      match chainStep expected (captured.drop offset) with
      | .stop .silent => ⟨⟨⟨table, []⟩, extension⟩, summary⟩
      | .stop (.remark note) => ⟨⟨⟨table, [.noted offset note]⟩, extension⟩, summary⟩
      | .stop (.unclaimed (.etherType value)) =>
          let asked := ask extension captured table offset (.etherType value)
          ⟨asked.orNote offset (.unknownEtherType value), summary⟩
      | .stop (.unclaimed (.ipNumber value)) =>
          let asked := ask extension captured table offset (.ipNumber value)
          ⟨asked.orNote offset (.unknownIpNumber value), summary⟩
      | .stop (.unclaimed (.ports source destination)) =>
          let asked := ask extension captured table offset (.ports source destination)
          ⟨asked.toConclusion, summary⟩
      | .take layer _ next =>
          let progress := recordLayer table summary offset layer
          match progress.reached with
          | none => ⟨⟨progress.toRecorded, extension⟩, progress.summary⟩
          | some stop =>
              let behind :=
                walkUpTo extension captured room progress.table progress.summary stop next
              { behind with events := progress.events ++ behind.events }

/-- Walks along a chain to its end. No more headers fit the captured bytes than there are bytes. -/
def walk (extension : Option Extension) (captured : Bytes) (table : RecordTable)
    (summary : Summary) (offset : Nat) (expected : Expected) : Walked :=
  walkUpTo extension captured (captured.length + 1) table summary offset expected

/-- The whole chain recorded, and the extension asked when that is done. -/
def recordThenAsk (extension : Option Extension) (captured : Bytes) (table : RecordTable)
    (summary : Summary) (offset : Nat) (expected : Expected) : Walked :=
  let (progress, ending) := recordChain table summary captured offset expected
  let conclusion := conclude extension captured progress.table (progress.reached.getD 0) ending
  ⟨{ conclusion with events := progress.events ++ conclusion.events }, progress.summary⟩

theorem conclude_of_note {hook : Hook} {note : Note} (hnote : hook.note? = some note)
    (extension : Option Extension) (captured : Bytes) (table : RecordTable) (offset : Nat) :
    conclude extension captured table offset (.unclaimed hook) =
      (ask extension captured table offset hook).orNote offset note := by
  cases extension with
  | none =>
      rw [conclude, hnote]
      rfl
  | some extension =>
      rw [conclude, hnote]
      dsimp only [Extension.consult, ask, Asked.orNote]
      split
      · rw [List.append_nil]
      · rfl

theorem conclude_ports (extension : Option Extension) (captured : Bytes) (table : RecordTable)
    (offset source destination : Nat) :
    conclude extension captured table offset (.unclaimed (.ports source destination)) =
      (ask extension captured table offset (.ports source destination)).toConclusion := by
  cases extension with
  | none => rfl
  | some extension =>
      rw [conclude]
      dsimp only [Extension.consult, ask, Hook.note?, Option.map_none, Option.toList_none]
      rw [ite_self, List.append_nil]

section Steps

variable {extension : Option Extension} {captured : Bytes} {table : RecordTable}
  {summary : Summary} {offset : Nat} {expected next : Expected} {layer : Layer} {span : Nat}

theorem recordThenAsk_of_stop {ending : Ending}
    (hmove : chainStep expected (captured.drop offset) = .stop ending) :
    recordThenAsk extension captured table summary offset expected =
      ⟨conclude extension captured table offset ending, summary⟩ := by
  rw [recordThenAsk, recordChain, chain_eq, hmove]
  rfl

theorem recordThenAsk_of_refused
    (hmove : chainStep expected (captured.drop offset) = .take layer span next)
    (hreached : (recordLayer table summary offset layer).reached = none) :
    recordThenAsk extension captured table summary offset expected =
      ⟨⟨(recordLayer table summary offset layer).toRecorded, extension⟩,
        (recordLayer table summary offset layer).summary⟩ := by
  obtain ⟨rest, hrest⟩ : ∃ rest, (chain expected (captured.drop offset)).items = layer :: rest := by
    rw [chain_eq, hmove]
    dsimp only
    split
    · exact ⟨_, rfl⟩
    · exact ⟨[], rfl⟩
  have hlayers : recordLayers table summary offset (chain expected (captured.drop offset)).items =
      recordLayer table summary offset layer := by
    rw [hrest, recordLayers]
    simp only [hreached]
  rw [recordThenAsk, recordChain, hlayers]
  simp only [hreached, Option.isSome_none, Bool.false_eq_true, if_false, conclude, List.append_nil]

theorem recordThenAsk_of_reached {stop : Nat}
    (hmove : chainStep expected (captured.drop offset) = .take layer span next)
    (hreached : (recordLayer table summary offset layer).reached = some stop)
    (hstop : stop = offset + span) (hwithin : stop ≤ captured.length) :
    let progress := recordLayer table summary offset layer
    let behind := recordThenAsk extension captured progress.table progress.summary stop next
    recordThenAsk extension captured table summary offset expected =
      { behind with events := progress.events ++ behind.events } := by
  intro progress behind
  have hhas : Bytes.has (captured.drop offset) span = true := by
    rw [Bytes.has_eq_true_iff, List.length_drop]
    omega
  have hchain : chain expected (captured.drop offset) =
      (chain next (captured.drop stop)).cons layer := by
    rw [chain_eq, hmove]
    simp only [hhas, if_true, List.drop_drop, hstop]
  have hlayers : recordLayers table summary offset (chain expected (captured.drop offset)).items =
      let found := recordLayers progress.table progress.summary stop
        (chain next (captured.drop stop)).items
      { found with events := progress.events ++ found.events } := by
    rw [hchain, Scanned.cons_items, recordLayers]
    simp only [hreached]
    rfl
  rw [recordThenAsk, recordChain, hlayers, hchain, Scanned.cons_verdict]
  simp only [List.append_assoc]
  rfl

end Steps

theorem walkUpTo_eq (extension : Option Extension) {captured : Bytes} {room : Nat}
    {table : RecordTable} (hregular : table.Regular) (hlimit : table.limit = captured.length)
    (summary : Summary) {offset : Nat} (hoffset : offset ≤ captured.length)
    (hroom : captured.length < offset + room) (expected : Expected) :
    walkUpTo extension captured room table summary offset expected =
      recordThenAsk extension captured table summary offset expected := by
  induction room generalizing table summary offset expected with
  | zero => omega
  | succ room ih =>
      unfold walkUpTo
      cases hmove : chainStep expected (captured.drop offset) with
      | stop ending =>
          rw [recordThenAsk_of_stop hmove]
          cases ending with
          | silent | remark note => rfl
          | unclaimed hook =>
              cases hook with
              | etherType value | ipNumber value => rw [conclude_of_note rfl]
              | ports source destination => rw [conclude_ports]
      | take layer span next =>
          obtain ⟨rfl, hfinds⟩ := chainStep_eq_take_iff.mp hmove
          have hadvance := chainStep_advances expected (captured.drop offset)
          rw [hmove, Move.advances_take] at hadvance
          have hlays := RecordTable.lays_recordLayer hregular summary offset hfinds.shaped.closed
          dsimp only
          cases hreached : (recordLayer table summary offset layer).reached with
          | none => exact (recordThenAsk_of_refused hmove hreached).symm
          | some stop =>
              -- The header ends within the capture, and so the chain goes on behind it.
              have hstop := (hlays.reached stop hreached).1
              have hwithin := hlimit ▸ RecordTable.reached_recordLayer_le hreached
              rw [recordThenAsk_of_reached hmove hreached hstop hwithin,
                ← ih hlays.takes.regular (hlays.takes.limit_eq.trans hlimit) _ hwithin (by omega)]

/-- An extension that is asked on the way is asked as if all else had been done before. -/
theorem walk_eq (extension : Option Extension) {captured : Bytes} {table : RecordTable}
    (hregular : table.Regular) (hlimit : table.limit = captured.length) (summary : Summary)
    {offset : Nat} (hoffset : offset ≤ captured.length) (expected : Expected) :
    walk extension captured table summary offset expected =
      recordThenAsk extension captured table summary offset expected :=
  walkUpTo_eq extension hregular hlimit summary hoffset (by omega) expected

end Dissection

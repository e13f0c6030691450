import Dissection.Proofs.CallProtocol
import Dissection.Proofs.Refusals

namespace Dissection

namespace RecordTable

/-- The events in the course of which a table turned into another count the records by which
it has grown. -/
def Counted (table next : RecordTable) (events : List Event) : Prop :=
  next.size = table.size + events.countP Event.isAdded

section Counted

variable {table mid next : RecordTable}

theorem Counted.of_none {events : List Event} (h : ∀ event ∈ events, event.isAdded = false) :
    table.Counted table events := by
  have hnone : events.countP Event.isAdded = 0 := by simpa [List.countP_eq_zero] using h
  simp [Counted, hnone]

theorem Counted.append {events behind : List Event} (h : table.Counted mid events)
    (hbehind : mid.Counted next behind) : table.Counted next (events ++ behind) := by
  unfold Counted at *
  rw [hbehind, h, List.countP_append, Nat.add_assoc]

theorem Counted.cons {event : Event} {events : List Event} (hevent : event.isAdded = false)
    (h : table.Counted next events) : table.Counted next (event :: events) := by
  simpa [Counted, List.countP_cons, hevent] using h

theorem counted_add? {place : Placement} (h : table.add? place = some next) :
    table.Counted next [.added place table.size] := by
  obtain ⟨_, _, rfl⟩ := add?_eq_some_iff.mp h
  simp [Counted, size, Event.isAdded]

theorem counted_recordEntries (table : RecordTable) (offset : Nat) (fault : Option Note)
    (entries : List Entry) :
    table.Counted (table.recordEntries offset fault entries).table
      (table.recordEntries offset fault entries).events := by
  induction entries generalizing table offset with
  | nil =>
      apply Counted.of_none
      cases fault <;> simp [recordEntries, Event.isAdded]
  | cons entry rest ih =>
      cases hfinding : entry.finding with
      | skipped note =>
          simp only [recordEntries, hfinding]
          exact (ih _ _).cons rfl
      | known id =>
          simp only [recordEntries, hfinding]
          cases hadd : table.add? ⟨id, offset, entry.length⟩ with
          | none => exact .of_none (by simp [refusal, Event.isAdded])
          | some added => exact (counted_add? hadd).append (ih added _)

theorem counted_recordTrailers (table : RecordTable) (offset : Nat) (trailers : List Trailer) :
    table.Counted (table.recordTrailers offset trailers).table
      (table.recordTrailers offset trailers).events := by
  induction trailers generalizing table offset with
  | nil => exact .of_none (by simp [recordTrailers])
  | cons trailer rest ih =>
      cases hadd : table.add? ⟨trailer.id, offset, trailer.length⟩ with
      | none =>
          simp only [recordTrailers, hadd]
          exact .of_none (by simp [refusal, Event.isAdded])
      | some added =>
          simp only [recordTrailers, hadd]
          exact ((counted_add? hadd).append (counted_recordEntries added _ _ _)).append (ih _ _)

theorem counted_recordResize (table : RecordTable) (index length : Nat) :
    table.Counted (table.recordResize index length).table
      (table.recordResize index length).events := by
  have hevents : (table.recordResize index length).events.countP Event.isAdded = 0 := by
    unfold recordResize
    split <;> rfl
  rw [Counted, size_recordResize, hevents, Nat.add_zero]

theorem counted_recordPlaces (table : RecordTable) (places : List Placement) :
    table.Counted (table.recordPlaces places).table (table.recordPlaces places).events := by
  induction places generalizing table with
  | nil => exact .of_none (by simp [recordPlaces])
  | cons place rest ih =>
      cases hadd : table.add? place with
      | none =>
          simp only [recordPlaces, hadd]
          exact (ih table).cons rfl
      | some added =>
          simp only [recordPlaces, hadd]
          exact (counted_add? hadd).append (ih added)

end Counted

end RecordTable

theorem counted_recordLayer (table : RecordTable) (summary : Summary) (offset : Nat)
    (layer : Layer) :
    table.Counted (recordLayer table summary offset layer).table
      (recordLayer table summary offset layer).events := by
  cases hadd : table.add? ⟨layer.kind.id, offset, layer.length⟩ with
  | none =>
      simp only [recordLayer, hadd]
      exact .of_none (by simp [RecordTable.refusal, Event.isAdded])
  | some added =>
      have hmembers := (RecordTable.counted_add? hadd).append
        (added.counted_recordEntries (offset + layer.members.start) layer.members.run.verdict
          layer.members.run.items)
      cases htrailers : layer.trailers with
      | none =>
          simp only [recordLayer, hadd, htrailers]
          exact hmembers
      | some trailers =>
          simp only [recordLayer, hadd, htrailers]
          exact (hmembers.append (RecordTable.counted_recordTrailers _ _ _)).append
            (RecordTable.counted_recordResize _ _ _)

theorem counted_recordLayers (table : RecordTable) (summary : Summary) (offset : Nat)
    (layers : List Layer) :
    table.Counted (recordLayers table summary offset layers).table
      (recordLayers table summary offset layers).events := by
  induction layers generalizing table summary offset with
  | nil => exact .of_none (by simp [recordLayers])
  | cons layer rest ih =>
      have hlayer := counted_recordLayer table summary offset layer
      unfold recordLayers
      dsimp only
      split
      · exact hlayer
      · exact hlayer.append (ih _ _ _)

theorem counted_conclude (extension : Option Extension) (captured : Bytes) (table : RecordTable)
    (offset : Nat) (ending : Ending) :
    table.Counted (conclude extension captured table offset ending).table
      (conclude extension captured table offset ending).events := by
  cases ending with
  | silent => exact .of_none (by simp [conclude])
  | remark note => exact .of_none (by simp [conclude, Event.isAdded])
  | unclaimed hook =>
      have hnote : ∀ event ∈ (hook.note?.map (Event.noted offset)).toList,
          event.isAdded = false := by
        cases hook <;> simp [Hook.note?, Event.isAdded]
      cases extension with
      | none => exact .of_none hnote
      | some consulted =>
          refine RecordTable.Counted.append (.cons rfl (table.counted_recordPlaces _)) (.of_none ?_)
          split
          · simp
          · exact hnote

/-- A packet that was dissected, with the count that was answered and the table that it left. -/
structure Dissected where
  captured : Nat
  count : Nat
  table : RecordTable

/-- What counters of any past account for, once some packets more were dissected. -/
structure Counters.Accounts (counters : Counters) (dissections : List Dissected) : Prop where
  packets_eq : counters.packets = dissections.length
  bytes_eq : counters.bytes = total Dissected.captured dissections
  /-- Not even the Ethernet header fits what was captured of them. -/
  unrecognized_eq : counters.unrecognized =
    dissections.countP fun dissection => dissection.count = 0 && dissection.captured < 14
  recordsAdded_eq : counters.recordsAdded =
    total (fun dissection => dissection.table.size) dissections

namespace Dissector

theorem counted_dissect {dissector : Dissector} {frame bytes : Bytes} {captured wire : Nat}
    (timestamp : UInt64) (h : dissector.captured? frame captured wire = .ok bytes) :
    (dissector.dissect frame timestamp captured wire).dissector.table.size =
      (dissector.dissect frame timestamp captured wire).events.countP Event.isAdded := by
  obtain ⟨ending, hconcluded⟩ := dissector.exists_concluded timestamp h
  have hlayers : (RecordTable.empty captured dissector.settings.defaultMask).Counted
      (dissector.recorded bytes captured).table (dissector.recorded bytes captured).events := by
    apply counted_recordLayers
  have hbehind := hlayers.append (counted_conclude dissector.extension bytes _
    ((dissector.recorded bytes captured).reached.getD 0) ending)
  have hstart : (RecordTable.empty captured dissector.settings.defaultMask).size = 0 := rfl
  rw [RecordTable.Counted, hstart, Nat.zero_add] at hbehind
  rw [hconcluded]
  exact hbehind

end Dissector

namespace Session

/-- The packet that a command dissects, if it is one to do so and is not refused. -/
def dissection? (session : Session) : Command → Option Dissected
  | .dissect frame timestamp captured wire =>
      let outcome := session.dissector.dissect frame timestamp captured wire
      match outcome.result with
      | .error _ => none
      | .ok count => some ⟨captured, count, outcome.dissector.table⟩
  | _ => none

/-- The packets dissected in the course of commands. -/
def dissections (session : Session) : List Command → List Dissected
  | [] => []
  | command :: rest =>
      (session.dissection? command).toList ++ (session.perform command).1.dissections rest

theorem counters_perform_of_none {session : Session} {command : Command}
    (hclear : command ≠ .clearCounters) (h : session.dissection? command = none) :
    (session.perform command).1.counters = session.counters := by
  cases command with
  | clearCounters => exact absurd rfl hclear
  | dissect frame timestamp captured wire =>
      cases hresult : (session.dissector.dissect frame timestamp captured wire).result with
      | error error => simp only [perform, hresult]
      | ok count => simp only [dissection?, hresult, reduceCtorEq] at h
  | _ => rfl

/-- Counters that account for some packets account for one more when it is dissected. -/
theorem accounts_perform {session : Session} {done : List Dissected} {command : Command}
    (h : session.counters.Accounts done) (hclear : command ≠ .clearCounters) :
    (session.perform command).1.counters.Accounts
      (done ++ (session.dissection? command).toList) := by
  cases hfound : session.dissection? command with
  | none => simpa [counters_perform_of_none hclear hfound] using h
  | some dissection =>
      cases command with
      | dissect frame timestamp captured wire =>
          cases hbytes : session.dissector.captured? frame captured wire with
          | error error =>
              simp [dissection?, Dissector.dissect_of_error timestamp hbytes] at hfound
          | ok bytes =>
              have hresult := Dissector.result_dissect timestamp hbytes
              have hcounted := Dissector.counted_dissect timestamp hbytes
              simp only [dissection?, hresult, Option.some.injEq] at hfound
              subst hfound
              simp only [perform, hresult]
              obtain ⟨hpackets, hlength, hunrecognized, hadded⟩ := h
              constructor
              · simp [Counters.count, hpackets]
              · simp [Counters.count, hlength, total_append]
              · rw [Counters.count, hunrecognized, List.countP_append, Option.toList_some,
                  List.countP_singleton]
                dsimp only
                grind
              · simp [Counters.count, hadded, total_append, hcounted]
      | _ => cases hfound

theorem accounts_run {session : Session} {done : List Dissected} {commands : List Command}
    (h : session.counters.Accounts done) (hclear : .clearCounters ∉ commands) :
    (session.run commands).counters.Accounts (done ++ session.dissections commands) := by
  induction commands generalizing session done with
  | nil => simpa [run, dissections] using h
  | cons command rest ih =>
      rw [List.mem_cons, not_or] at hclear
      rw [dissections, ← List.append_assoc]
      exact ih (accounts_perform h (Ne.symm hclear.1)) hclear.2

/-- From cleared counters on, the counters account for the packets that were dissected, and
every command that dissects none, among them every call that is refused, leaves all of them
as they were. Looking something up or reading a descriptor is no command, as it has nothing of
a session to change. -/
theorem run_accounts (dissector : Dissector) {commands : List Command}
    (hclear : .clearCounters ∉ commands) :
    let start : Session := ⟨dissector, .zero⟩
    (start.run commands).counters.Accounts (start.dissections commands) ∧
      ∀ before command behind, commands = before ++ command :: behind →
        (start.run before).dissection? command = none →
          ((start.run before).perform command).1.counters = (start.run before).counters := by
  intro start
  have hstart : start.counters.Accounts [] := ⟨rfl, rfl, rfl, rfl⟩
  refine ⟨accounts_run hstart hclear, ?_⟩
  rintro before command behind rfl hnone
  apply counters_perform_of_none _ hnone
  rintro rfl
  exact hclear (by simp)

/-- A packet that is dissected, one that is refused behind it, and one too short for an
Ethernet header. -/
def countedCommands : List Command :=
  [.setPorts 1 2, .dissect Dissector.hopByHopFrame 0 70 70,
    .dissect Dissector.hopByHopFrame 0 58 70, .write none [], .reset,
    .dissect Dissector.hopByHopFrame 0 10 70]

theorem accounts_countedCommands :
    let start : Session := ⟨.new .default, .zero⟩
    Command.clearCounters ∉ countedCommands ∧
      (start.run countedCommands).counters = ⟨2, 80, 1, 5, 1⟩ ∧
        (start.run countedCommands).counters.Accounts (start.dissections countedCommands) := by
  intro start
  have hclear : Command.clearCounters ∉ countedCommands := by simp [countedCommands]
  exact ⟨hclear, by decide, (run_accounts (.new .default) hclear).1⟩

end Session

end Dissection

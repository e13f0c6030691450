import Dissection.Proofs.Geometry
import Dissection.Proofs.RoundTrip

namespace Dissection

def Command.isReset : Command → Bool
  | .reset => true
  | _ => false

/-- A command and what was answered. -/
structure Exchange where
  command : Command
  reply : Reply

namespace Exchange

def isReset (exchange : Exchange) : Bool :=
  exchange.command.isReset

/-- Whether a packet was dissected. -/
def isDissected (exchange : Exchange) : Bool :=
  match exchange.reply with
  | .dissected (.ok _) _ => true
  | _ => false

end Exchange

/-- A packet was dissected, and no reset came behind it. -/
def HoldsPacket (exchanges : List Exchange) : Prop :=
  ∃ before exchange behind, exchanges = before ++ exchange :: behind ∧
    exchange.isDissected = true ∧ ∀ later ∈ behind, later.isReset = false

theorem not_holdsPacket_nil : ¬HoldsPacket [] := by
  rintro ⟨before, exchange, behind, h, _⟩
  exact List.append_ne_nil_of_right_ne_nil before (List.cons_ne_nil exchange behind) h.symm

theorem holdsPacket_cons {exchange : Exchange} {exchanges : List Exchange} :
    HoldsPacket (exchange :: exchanges) ↔ HoldsPacket exchanges ∨
      exchange.isDissected = true ∧ ∀ later ∈ exchanges, later.isReset = false := by
  constructor
  · rintro ⟨before, found, behind, heq, hfound, hbehind⟩
    cases before with
    | nil =>
        obtain ⟨rfl, rfl⟩ := List.cons.inj heq
        exact .inr ⟨hfound, hbehind⟩
    | cons first before =>
        obtain ⟨_, rfl⟩ := List.cons.inj heq
        exact .inl ⟨before, found, behind, rfl, hfound, hbehind⟩
  · rintro (⟨before, found, behind, rfl, hfound, hbehind⟩ | ⟨hexchange, hlater⟩)
    · exact ⟨exchange :: before, found, behind, rfl, hfound, hbehind⟩
    · exact ⟨[], exchange, exchanges, rfl, hexchange, hlater⟩

/-- The error that a packet is refused with where one is at hand or not: that of the first
check that it fails. -/
inductive DissectError.Refuses (held : Prop) (frame : Bytes) (captured wire : Nat) :
    DissectError → Prop
  | notReset (hheld : held) : Refuses held frame captured wire .notReset
  | capturedTooLong (hheld : ¬held) (hcaptured : 65535 < captured) :
      Refuses held frame captured wire (.capturedTooLong captured)
  | wireTooLong (hheld : ¬held) (hcaptured : captured ≤ 65535) (hwire : 65535 < wire) :
      Refuses held frame captured wire (.wireTooLong wire)
  | capturedBeyondBuffer (hheld : ¬held) (hcaptured : captured ≤ 65535) (hwire : wire ≤ 65535)
      (hframe : frame.length < captured) :
      Refuses held frame captured wire (.capturedBeyondBuffer captured frame.length)

namespace Dissector

variable {dissector : Dissector} {frame : Bytes} {captured wire : Nat}

theorem captured?_eq_error_iff {error : DissectError} :
    dissector.captured? frame captured wire = .error error ↔
      error.Refuses (dissector.isIdle = false) frame captured wire := by
  unfold captured?
  constructor
  · intro h
    split at h
    · rename_i hheld
      cases h
      exact .notReset (by simpa using hheld)
    · rename_i hidle
      have hidle : ¬dissector.isIdle = false := by simpa using hidle
      split at h
      · cases h
        exact .capturedTooLong hidle ‹_›
      · split at h
        · cases h
          exact .wireTooLong hidle (by omega) ‹_›
        · split at h
          · cases h
          · rename_i hhas
            rw [Bytes.has_eq_true_iff] at hhas
            cases h
            exact .capturedBeyondBuffer hidle (by omega) (by omega) (by omega)
  · intro h
    cases h with
    | notReset hheld => rw [if_pos (by simp [hheld])]
    | capturedTooLong hheld hcaptured =>
        rw [if_neg (by simpa using hheld), if_pos hcaptured]
    | wireTooLong hheld hcaptured hwire =>
        rw [if_neg (by simpa using hheld), if_neg (by omega), if_pos hwire]
    | capturedBeyondBuffer hheld hcaptured hwire hframe =>
        have hhas : ¬frame.has captured = true := by
          rw [Bytes.has_eq_true_iff]
          omega
        rw [if_neg (by simpa using hheld), if_neg (by omega), if_neg (by omega), if_neg hhas]

theorem write_of_idle (h : dissector.isIdle = true) (order : ByteOrder) (buffer : Bytes) :
    dissector.write order buffer = .error .noPacket := by
  cases hphase : dissector.phase with
  | idle mask => simp only [write, descriptor?, hphase]
  | holding packet => simp only [isIdle, hphase, Bool.false_eq_true] at h

theorem exists_descriptor? (h : dissector.isIdle = false) :
    ∃ descriptor, dissector.descriptor? = some descriptor := by
  cases hphase : dissector.phase with
  | idle mask => simp only [isIdle, hphase, Bool.true_eq_false] at h
  | holding packet =>
      rw [descriptor?, hphase]
      exact ⟨_, rfl⟩

theorem write_of_short (h : dissector.isIdle = false) (order : ByteOrder) {buffer : Bytes}
    (hbuffer : buffer.length < 288) :
    dissector.write order buffer =
      .error (.descriptor (.bufferTooSmall buffer.length)) := by
  obtain ⟨descriptor, hdescriptor⟩ := exists_descriptor? h
  have hhas : ¬buffer.has Descriptor.size = true := by
    rw [Bytes.has_eq_true_iff]
    exact Nat.not_le_of_lt hbuffer
  rw [write, hdescriptor]
  dsimp only
  rw [Descriptor.writeInto, if_neg hhas]
  rfl

theorem write_of_room (h : dissector.isIdle = false) (order : ByteOrder) {buffer : Bytes}
    (hbuffer : 288 ≤ buffer.length) :
    ∃ bytes : Bytes, bytes.length = 288 ∧
      dissector.write order buffer = .ok (bytes ++ buffer.drop 288) := by
  obtain ⟨descriptor, hdescriptor⟩ := exists_descriptor? h
  have hhas : buffer.has Descriptor.size = true := (Bytes.has_eq_true_iff _ _).mpr hbuffer
  refine ⟨descriptor.encode order, descriptor.encode_length order, ?_⟩
  rw [write, hdescriptor]
  dsimp only
  rw [Descriptor.writeInto, if_pos hhas]
  rfl

end Dissector

/-- What a buffer holds behind a call that was to write into it. -/
def Reply.buffer (buffer : Bytes) (reply : Reply) : Bytes :=
  match reply with
  | .written (.ok filled) => filled
  | _ => buffer

namespace Session

/-- The commands with what was answered to them. -/
def exchanges (session : Session) : List Command → List Exchange
  | [] => []
  | command :: rest =>
      ⟨command, (session.perform command).2⟩ :: (session.perform command).1.exchanges rest

theorem perform_dissect_of_refuses {session : Session} {frame : Bytes} (timestamp : UInt64)
    {captured wire : Nat} {error : DissectError}
    (h : error.Refuses (session.dissector.isIdle = false) frame captured wire) :
    session.perform (.dissect frame timestamp captured wire) =
      (session, .dissected (.error error) []) := by
  have hcaptured := Dissector.captured?_eq_error_iff.mpr h
  simp only [perform, Dissector.dissect, hcaptured]

theorem perform_dissect_of_ok {session : Session} {frame bytes : Bytes} (timestamp : UInt64)
    {captured wire : Nat} (h : session.dissector.captured? frame captured wire = .ok bytes) :
    ∃ next events, session.perform (.dissect frame timestamp captured wire) =
        (next, .dissected (.ok (if 14 ≤ captured then captured else 0)) events) ∧
      next.dissector.isIdle = false := by
  have hresult := Dissector.result_dissect timestamp h
  refine ⟨(session.perform (.dissect frame timestamp captured wire)).1,
    (session.dissector.dissect frame timestamp captured wire).events, ?_, ?_⟩
  · rw [← hresult]
    rfl
  · simp only [perform, Dissector.dissect, h]
    rfl

/-- A packet is at hand behind a command that dissects one, and where it was before and is
not given up. -/
theorem isIdle_perform (session : Session) (command : Command) :
    (session.perform command).1.dissector.isIdle = false ↔
      Exchange.isDissected ⟨command, (session.perform command).2⟩ = true ∨
        session.dissector.isIdle = false ∧
          Exchange.isReset ⟨command, (session.perform command).2⟩ = false := by
  cases command with
  | dissect frame timestamp captured wire =>
      cases h : session.dissector.captured? frame captured wire with
      | error error =>
          rw [perform_dissect_of_refuses timestamp (Dissector.captured?_eq_error_iff.mp h)]
          simp [Exchange.isDissected, Exchange.isReset, Command.isReset]
      | ok bytes =>
          obtain ⟨next, events, hperform, hnext⟩ := perform_dissect_of_ok timestamp h
          rw [hperform]
          simp [hnext, Exchange.isDissected]
  | reset =>
      simp [perform, update, Exchange.isDissected, Exchange.isReset, Command.isReset,
        Dissector.reset]
      rfl
  | write _ _ | clearCounters =>
      simp [perform, Exchange.isDissected, Exchange.isReset, Command.isReset]
  | _ =>
      simp [perform, update, Exchange.isDissected, Exchange.isReset, Command.isReset]
      rfl

theorem isIdle_run (session : Session) (commands : List Command) :
    (session.run commands).dissector.isIdle = false ↔
      HoldsPacket (session.exchanges commands) ∨ session.dissector.isIdle = false ∧
        ∀ exchange ∈ session.exchanges commands, exchange.isReset = false := by
  induction commands generalizing session with
  | nil => simp [run, exchanges, not_holdsPacket_nil]
  | cons command rest ih =>
      rw [exchanges, holdsPacket_cons, List.forall_mem_cons]
      show ((session.perform command).1.run rest).dissector.isIdle = false ↔ _
      rw [ih, isIdle_perform]
      tauto

theorem isIdle_run_new (settings : Settings) (commands : List Command) :
    ((new settings).run commands).dissector.isIdle = false ↔
      HoldsPacket ((new settings).exchanges commands) := by
  have hidle : ¬(new settings).dissector.isIdle = false := Bool.noConfusion
  rw [isIdle_run, or_iff_left fun h => hidle h.1]

/-- What a call to dissect a packet comes to, where a packet is at hand or not. -/
structure AnswersDissect (session : Session) (held : Prop) (frame : Bytes)
    (timestamp : UInt64) (captured wire : Nat) : Prop where
  /-- The packet is dissected where it passes all checks. -/
  dissected_iff : ∀ count,
    (∃ events, (session.perform (.dissect frame timestamp captured wire)).2 =
      .dissected (.ok count) events) ↔
    (¬held ∧ captured ≤ 65535 ∧ wire ≤ 65535 ∧ captured ≤ frame.length) ∧
      count = if 14 ≤ captured then captured else 0
  refused_iff : ∀ error,
    (∃ events, (session.perform (.dissect frame timestamp captured wire)).2 =
      .dissected (.error error) events) ↔ error.Refuses held frame captured wire
  /-- Nothing is recorded, consulted or counted for a packet that is refused. -/
  unchanged : ∀ error events,
    (session.perform (.dissect frame timestamp captured wire)).2 =
        .dissected (.error error) events →
      events = [] ∧ (session.perform (.dissect frame timestamp captured wire)).1 = session
  /-- Behind a packet that is refused, one that passes the checks is dissected. -/
  resumes : ∀ error events,
    (session.perform (.dissect frame timestamp captured wire)).2 =
        .dissected (.error error) events →
      ¬held → ∀ (next : Bytes) (later : UInt64) (count size : Nat),
        count ≤ 65535 → size ≤ 65535 → count ≤ next.length →
          ∃ recorded, ((session.perform (.dissect frame timestamp captured wire)).1.perform
              (.dissect next later count size)).2 =
            .dissected (.ok (if 14 ≤ count then count else 0)) recorded

/-- What a call to write a descriptor comes to, where a packet is at hand or not. -/
structure AnswersWrite (session : Session) (held : Prop) (order : Option ByteOrder)
    (buffer : Bytes) : Prop where
  written_iff :
    (∃ filled, (session.perform (.write order buffer)).2 = .written (.ok filled)) ↔
      held ∧ 288 ≤ buffer.length
  noPacket_iff :
    (session.perform (.write order buffer)).2 = .written (.error .noPacket) ↔ ¬held
  tooSmall_iff : ∀ size,
    (session.perform (.write order buffer)).2 =
        .written (.error (.descriptor (.bufferTooSmall size))) ↔
      held ∧ buffer.length < 288 ∧ size = buffer.length
  buffer_eq : ∀ error, (session.perform (.write order buffer)).2 = .written (.error error) →
    (session.perform (.write order buffer)).2.buffer buffer = buffer
  /-- Nothing behind the descriptor is written over. -/
  length_eq : ((session.perform (.write order buffer)).2.buffer buffer).length = buffer.length
  drop_eq : ((session.perform (.write order buffer)).2.buffer buffer).drop 288 = buffer.drop 288
  unchanged : (session.perform (.write order buffer)).1 = session

section Dissect

variable (session : Session) (frame : Bytes) (timestamp : UInt64) (captured wire : Nat)

theorem replies_ok_iff (count : Nat) :
    (∃ events, (session.perform (.dissect frame timestamp captured wire)).2 =
        .dissected (.ok count) events) ↔
      (∃ bytes, session.dissector.captured? frame captured wire = .ok bytes) ∧
        count = if 14 ≤ captured then captured else 0 := by
  cases h : session.dissector.captured? frame captured wire with
  | error error =>
      rw [perform_dissect_of_refuses timestamp (Dissector.captured?_eq_error_iff.mp h)]
      simp
  | ok bytes =>
      obtain ⟨next, events, hperform, _⟩ := perform_dissect_of_ok timestamp h
      rw [hperform]
      simp [eq_comm]

theorem replies_error_iff (error : DissectError) :
    (∃ events, (session.perform (.dissect frame timestamp captured wire)).2 =
        .dissected (.error error) events) ↔
      session.dissector.captured? frame captured wire = .error error := by
  cases h : session.dissector.captured? frame captured wire with
  | error found =>
      rw [perform_dissect_of_refuses timestamp (Dissector.captured?_eq_error_iff.mp h)]
      simp
  | ok bytes =>
      obtain ⟨next, events, hperform, _⟩ := perform_dissect_of_ok timestamp h
      rw [hperform]
      simp

theorem dissects_iff (count : Nat) :
    (∃ events, (session.perform (.dissect frame timestamp captured wire)).2 =
        .dissected (.ok count) events) ↔
      (¬session.dissector.isIdle = false ∧ captured ≤ 65535 ∧ wire ≤ 65535 ∧
        captured ≤ frame.length) ∧ count = if 14 ≤ captured then captured else 0 := by
  rw [replies_ok_iff, Bool.not_eq_false]
  refine and_congr_left' ⟨?_, ?_⟩
  · rintro ⟨bytes, h⟩
    obtain ⟨hidle, hcaptured, hwire, hframe, _⟩ := Dissector.captured?_eq_ok_iff.mp h
    exact ⟨hidle, hcaptured, hwire, hframe⟩
  · rintro ⟨hidle, hcaptured, hwire, hframe⟩
    exact ⟨_, Dissector.captured?_eq_ok_iff.mpr ⟨hidle, hcaptured, hwire, hframe, rfl⟩⟩

theorem perform_of_replies_error {error : DissectError} {events : List Event}
    (h : (session.perform (.dissect frame timestamp captured wire)).2 =
      .dissected (.error error) events) :
    session.perform (.dissect frame timestamp captured wire) =
      (session, .dissected (.error error) []) := by
  have herror := (session.replies_error_iff frame timestamp captured wire error).mp ⟨_, h⟩
  exact perform_dissect_of_refuses timestamp (Dissector.captured?_eq_error_iff.mp herror)

theorem answersDissect :
    session.AnswersDissect (session.dissector.isIdle = false) frame timestamp captured wire := by
  refine ⟨session.dissects_iff frame timestamp captured wire, ?_, ?_, ?_⟩
  · intro error
    rw [replies_error_iff, Dissector.captured?_eq_error_iff]
  · intro error events hreply
    have hperform := session.perform_of_replies_error frame timestamp captured wire hreply
    rw [hperform] at hreply ⊢
    cases hreply
    exact ⟨rfl, rfl⟩
  · intro error events hreply hidle next later count size hcount hsize hnext
    rw [session.perform_of_replies_error frame timestamp captured wire hreply]
    exact (session.dissects_iff next later count size _).mpr ⟨⟨hidle, hcount, hsize, hnext⟩, rfl⟩

end Dissect

theorem answersWrite (session : Session) (order : Option ByteOrder) (buffer : Bytes) :
    session.AnswersWrite (session.dissector.isIdle = false) order buffer := by
  obtain ⟨written, hreply⟩ : ∃ written, (session.perform (.write order buffer)).2 =
      .written (session.dissector.write written buffer) := ⟨_, rfl⟩
  have hunchanged : (session.perform (.write order buffer)).1 = session := rfl
  cases hidle : session.dissector.isIdle with
  | true =>
      rw [Dissector.write_of_idle hidle] at hreply
      constructor <;> simp [hreply, hunchanged, Reply.buffer]
  | false =>
      rcases Nat.lt_or_ge buffer.length 288 with hshort | hroom
      · rw [Dissector.write_of_short hidle written hshort] at hreply
        constructor <;> simp [hreply, hunchanged, hshort, Reply.buffer, eq_comm]
      · obtain ⟨bytes, hbytes, hwrite⟩ := Dissector.write_of_room hidle written hroom
        rw [hwrite] at hreply
        constructor <;> simp [hreply, hunchanged, hroom, hbytes, Reply.buffer]

/-- The protocol of calls, behind any commands: a packet is dissected where none is at
hand and it passes all checks, a descriptor is written where a packet is at hand and there
is room for it, and the call changes nothing otherwise. -/
theorem run_protocol (settings : Settings) (commands : List Command) :
    let session := (new settings).run commands
    let held := HoldsPacket ((new settings).exchanges commands)
    (∀ frame timestamp captured wire,
      session.AnswersDissect held frame timestamp captured wire) ∧
      ∀ order buffer, session.AnswersWrite held order buffer := by
  intro session held
  have hheld : (session.dissector.isIdle = false) = held :=
    propext (isIdle_run_new settings commands)
  rw [← hheld]
  exact ⟨session.answersDissect, session.answersWrite⟩

end Session

end Dissection

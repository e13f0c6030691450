import Dissection.Dissector.Session
import Dissection.Proofs.TableInvariant

namespace Dissection

namespace Dissector

/-- The table of a dissector is sound for the mask from which it started, and its
limit is the captured length of the packet at hand. -/
structure Sound (start : UInt64) (dissector : Dissector) : Prop where
  table : dissector.table.Sound start
  limit_eq : dissector.table.limit = dissector.packet.capturedLength
  limit_le : dissector.table.limit ≤ 65535

theorem captured?_eq_ok_iff {dissector : Dissector} {frame bytes : Bytes}
    {captured wire : Nat} :
    dissector.captured? frame captured wire = .ok bytes ↔
      dissector.isIdle = true ∧ captured ≤ 65535 ∧ wire ≤ 65535 ∧
        captured ≤ frame.length ∧ bytes = frame.take captured := by
  unfold captured?
  constructor
  · intro h
    split at h
    · cases h
    · split at h
      · cases h
      · split at h
        · cases h
        · split at h
          · rename_i hidle hcaptured hwire hhas
            rw [Bytes.has_eq_true_iff] at hhas
            cases h
            refine ⟨by simpa using hidle, by omega, by omega, hhas, rfl⟩
          · cases h
  · rintro ⟨hidle, hcaptured, hwire, hlength, rfl⟩
    rw [if_neg (by simp [hidle]), if_neg (by omega), if_neg (by omega),
      if_pos ((Bytes.has_eq_true_iff _ _).mpr hlength)]

/-- A packet is dissected or nothing changes, and which of the two is told by the
result. -/
theorem dissect_cases (dissector : Dissector) (frame : Bytes) (timestamp : UInt64)
    (captured wire : Nat) :
    (∃ error, dissector.captured? frame captured wire = .error error ∧
      dissector.dissect frame timestamp captured wire = ⟨dissector, .error error, []⟩) ∨
    ∃ bytes, dissector.captured? frame captured wire = .ok bytes ∧
      (dissector.dissect frame timestamp captured wire).result.isOk = true := by
  cases h : dissector.captured? frame captured wire with
  | error error => exact .inl ⟨error, rfl, by simp [dissect, h]⟩
  | ok bytes => exact .inr ⟨bytes, rfl, by simp [dissect, h, Except.isOk, Except.toBool]⟩

theorem dissect_reaches {dissector : Dissector} {frame bytes : Bytes}
    {captured wire : Nat} (timestamp : UInt64)
    (h : dissector.captured? frame captured wire = .ok bytes) :
    (RecordTable.empty captured dissector.settings.defaultMask).Reaches
      (dissector.dissect frame timestamp captured wire).dissector.table := by
  simp only [dissect, h]
  exact (recordLayers_reaches _ _ _ _).trans (conclude_reaches _ _ _ _ _)

theorem sound_new (settings : Settings) :
    (new settings).Sound settings.defaultMask :=
  ⟨RecordTable.sound_empty _ _, rfl, Nat.zero_le _⟩

theorem sound_reset (dissector : Dissector) :
    dissector.reset.Sound dissector.settings.defaultMask :=
  ⟨RecordTable.sound_empty _ _, rfl, Nat.zero_le _⟩

theorem sound_dissect {dissector : Dissector} {frame bytes : Bytes} {captured wire : Nat}
    (timestamp : UInt64) (h : dissector.captured? frame captured wire = .ok bytes) :
    (dissector.dissect frame timestamp captured wire).dissector.Sound
      dissector.settings.defaultMask := by
  obtain ⟨_, hcaptured, _⟩ := captured?_eq_ok_iff.mp h
  have hreach := dissect_reaches timestamp h
  have hlimit := hreach.limit_eq
  refine ⟨hreach.sound (RecordTable.sound_empty _ _), ?_, ?_⟩
  · rw [hlimit]
    simp only [dissect, h]
    rfl
  · rw [hlimit]
    exact hcaptured

end Dissector

namespace Session

/-- Whether a command empties the table for a new start: a reset does, and so does
a packet that is dissected. -/
def restarts (session : Session) (command : Command) : Bool :=
  match command, (session.perform command).2 with
  | .reset, _ => true
  | _, .dissected (.ok _) _ => true
  | _, _ => false

/-- The default mask that was in force when the table at hand was last emptied,
where `start` is the one before the commands. -/
def startMask (start : UInt64) (session : Session) : List Command → UInt64
  | [] => start
  | command :: rest =>
      startMask
        (if session.restarts command then session.dissector.settings.defaultMask else start)
        (session.perform command).1 rest

theorem perform_sound {start : UInt64} {session : Session} (command : Command)
    (h : session.dissector.Sound start) :
    (session.perform command).1.dissector.Sound
      (if session.restarts command then session.dissector.settings.defaultMask
        else start) := by
  cases command with
  | reset => exact session.dissector.sound_reset
  | dissect frame timestamp captured wire =>
      rcases session.dissector.dissect_cases frame timestamp captured wire with
        ⟨error, _, hresult⟩ | ⟨bytes, hbytes, hresult⟩
      · simpa [perform, restarts, hresult] using h
      · have hrestarts :
            session.restarts (.dissect frame timestamp captured wire) = true := by
          simp only [restarts, perform]
          cases heq : (session.dissector.dissect frame timestamp captured wire).result with
          | error error => simp [heq, Except.isOk, Except.toBool] at hresult
          | ok result => rfl
        rw [hrestarts, if_pos rfl]
        exact Dissector.sound_dissect timestamp hbytes
  | setDatalink _ => exact ⟨h.table, h.limit_eq, h.limit_le⟩
  | setDefaultMask _ => exact ⟨h.table, h.limit_eq, h.limit_le⟩
  | setOrder _ => exact ⟨h.table, h.limit_eq, h.limit_le⟩
  | setExtension _ => exact ⟨h.table, h.limit_eq, h.limit_le⟩
  | setPorts _ _ => exact ⟨h.table, h.limit_eq, h.limit_le⟩
  | setTxFlags _ => exact ⟨h.table, h.limit_eq, h.limit_le⟩
  | setHash _ _ => exact ⟨h.table, h.limit_eq, h.limit_le⟩
  | write _ _ => exact h
  | clearCounters => exact h

theorem sound_run (commands : List Command) {session : Session} {start : UInt64}
    (h : session.dissector.Sound start) :
    (session.run commands).dissector.Sound (startMask start session commands) := by
  induction commands generalizing session start with
  | nil => exact h
  | cons command rest ih => exact ih (perform_sound command h)

/-- After every command of every session the table holds at most `capacity` records,
each of them within the captured bytes, and its mask is the default mask at its
start with the bits of the core records in it. -/
theorem run_sound (settings : Settings) (commands : List Command) :
    ((new settings).run commands).dissector.Sound
      (startMask settings.defaultMask (new settings) commands) :=
  sound_run commands (Dissector.sound_new settings)

end Session

end Dissection

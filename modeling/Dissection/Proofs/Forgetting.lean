import Mathlib.Data.List.DropRight
import Dissection.Proofs.CallProtocol

/-!
What a session remembers. A session that waits for a packet has kept its settings, its
extension and the metadata given since the last reset, and nothing of the packets before:
the next call comes to what it comes to in a fresh session (`run_forgets`), but for the mask
of the empty table behind a call that is refused (`mask_of_refused`).
-/

namespace Dissection

namespace Command

/-- Whether the command installs an extension. -/
def installs : Command → Bool
  | .setExtension _ => true
  | _ => false

/-- Whether the command gives metadata of a packet. -/
def describes : Command → Bool
  | .setPorts _ _ | .setTxFlags _ | .setHash _ _ => true
  | _ => false

/-- How the extension that a command installs responds. -/
def respond? : Command → Option (List Offer → Offer → Answer)
  | .setExtension extension => some extension.respond
  | _ => none

end Command

/-- The settings behind a command. -/
def Settings.configure (settings : Settings) : Command → Settings
  | .setDatalink datalink => { settings with datalink }
  | .setDefaultMask mask => { settings with defaultMask := mask }
  | .setOrder order => { settings with order }
  | _ => settings

/-- The metadata behind a command. -/
def Metadata.describe (metadata : Metadata) : Command → Metadata
  | .reset => .blank
  | .setPorts rxPort txPort => { metadata with rxPort, txPort }
  | .setTxFlags flags => { metadata with txFlags := flags }
  | .setHash hash type => metadata.withHash hash type
  | _ => metadata

/-- An extension that answers regardless of the offers made to it before. -/
def Extension.Stateless (extension : Extension) : Prop :=
  ∀ past offer, extension.respond past offer = extension.respond [] offer

/-- How the extension of a dissector responds, if it has one. -/
def Dissector.respond? (dissector : Dissector) : Option (List Offer → Offer → Answer) :=
  dissector.extension.map Extension.respond

/-- The counters of two sessions together. -/
def Counters.add (counters other : Counters) : Counters where
  packets := counters.packets + other.packets
  bytes := counters.bytes + other.bytes
  unrecognized := counters.unrecognized + other.unrecognized
  recordsAdded := counters.recordsAdded + other.recordsAdded
  recordsRefused := counters.recordsRefused + other.recordsRefused

theorem Counters.count_eq_add (counters : Counters) (captured result : Nat)
    (events : List Event) :
    counters.count captured result events =
      counters.add (Counters.zero.count captured result events) := by
  simp [Counters.count, Counters.add, Counters.zero]

/-- Of some commands, those that a fresh session needs to be like one that they leave: those
that install an extension, and those that give metadata behind the last reset. -/
def preparation (commands : List Command) : List Command :=
  commands.filter Command.installs ++
    (commands.rtakeWhile fun command => !command.isReset).filter Command.describes

theorem foldl_filter_of_fixed {β : Type} {change : β → Command → β} {keep : Command → Bool}
    {commands : List Command}
    (h : ∀ state, ∀ command ∈ commands, keep command = false → change state command = state)
    (state : β) : (commands.filter keep).foldl change state = commands.foldl change state := by
  induction commands generalizing state with
  | nil => rfl
  | cons command rest ih =>
      have hrest := ih fun state later hlater => h state later (List.mem_cons_of_mem _ hlater)
      cases hkeep : keep command with
      | true =>
          rw [List.filter_cons_of_pos hkeep]
          exact hrest _
      | false =>
          rw [List.filter_cons_of_neg (by simp [hkeep]), List.foldl_cons,
            h state command List.mem_cons_self hkeep]
          exact hrest _

theorem foldl_of_fixed {β : Type} {change : β → Command → β} {commands : List Command}
    (h : ∀ state, ∀ command ∈ commands, change state command = state) (state : β) :
    commands.foldl change state = state := by
  induction commands with
  | nil => rfl
  | cons command rest ih =>
      rw [List.foldl_cons, h state command List.mem_cons_self]
      exact ih fun state later hlater => h state later (List.mem_cons_of_mem _ hlater)

theorem foldl_describe_rtakeWhile (commands : List Command) :
    (commands.rtakeWhile fun command => !command.isReset).foldl Metadata.describe .blank =
      commands.foldl Metadata.describe .blank := by
  induction commands using List.reverseRecOn with
  | nil => rfl
  | append_singleton before command ih =>
      rw [List.rtakeWhile_concat, List.foldl_append]
      cases hreset : command.isReset with
      | true =>
          cases command with
          | reset => rfl
          | _ => cases hreset
      | false =>
          rw [Bool.not_false, if_pos rfl, List.foldl_append, ih]

section Preparation

variable {commands : List Command} {command : Command}

theorem installs_or_describes (h : command ∈ preparation commands) :
    command.installs = true ∨ command.describes = true := by
  rcases List.mem_append.mp h with h | h
  · exact .inl (List.mem_filter.mp h).2
  · exact .inr (List.mem_filter.mp h).2

theorem foldl_describe_preparation (commands : List Command) :
    (preparation commands).foldl Metadata.describe .blank =
      commands.foldl Metadata.describe .blank := by
  have hinstalls : (commands.filter Command.installs).foldl Metadata.describe .blank = .blank := by
    refine foldl_of_fixed ?_ _
    intro metadata command hcommand
    have hinstalls := (List.mem_filter.mp hcommand).2
    cases command with
    | setExtension _ => rfl
    | _ => cases hinstalls
  rw [preparation, List.foldl_append, hinstalls, foldl_filter_of_fixed, foldl_describe_rtakeWhile]
  intro metadata command hcommand hdescribes
  have hreset := List.mem_rtakeWhile_imp hcommand
  cases command with
  | reset => cases hreset
  | setPorts _ _ | setTxFlags _ | setHash _ _ => cases hdescribes
  | _ => rfl

theorem foldl_respond?_preparation (commands : List Command)
    (respond? : Option (List Offer → Offer → Answer)) :
    (preparation commands).foldl (fun respond? command => command.respond?.or respond?) respond? =
      commands.foldl (fun respond? command => command.respond?.or respond?) respond? := by
  have hdescribes (respond? : Option (List Offer → Offer → Answer)) :
      ((commands.rtakeWhile fun command => !command.isReset).filter Command.describes).foldl
        (fun respond? command => command.respond?.or respond?) respond? = respond? := by
    refine foldl_of_fixed ?_ _
    intro respond? command hcommand
    have hdescribes := (List.mem_filter.mp hcommand).2
    cases command with
    | setExtension _ => cases hdescribes
    | _ => rfl
  rw [preparation, List.foldl_append, hdescribes, foldl_filter_of_fixed]
  intro respond? command _ hinstalls
  cases command with
  | setExtension _ => cases hinstalls
  | _ => rfl

theorem foldl_configure_preparation (settings : Settings) (commands : List Command) :
    (preparation commands).foldl Settings.configure settings = settings := by
  refine foldl_of_fixed ?_ settings
  intro settings command hcommand
  have h := installs_or_describes hcommand
  cases command with
  | setDatalink _ | setDefaultMask _ | setOrder _ => simp [Command.installs, Command.describes] at h
  | _ => rfl

end Preparation

theorem respond_conclude (extension : Option Extension) (captured : Bytes) (table : RecordTable)
    (offset : Nat) (ending : Ending) :
    (conclude extension captured table offset ending).extension.map Extension.respond =
      extension.map Extension.respond := by
  cases ending <;> cases extension <;> rfl

namespace Session

/-- A fresh session with the settings, the extension and the metadata that commands leave. -/
def renewed (settings : Settings) (commands : List Command) : Session :=
  (new (commands.foldl Settings.configure settings)).run (preparation commands)

section Projections

variable (session : Session) (command : Command) (commands : List Command)

/-- Where each command changes a part of a session by itself, commands change it one after
the other. -/
theorem run_project {β : Type} (project : Session → β) (change : β → Command → β)
    (h : ∀ session command,
      project (session.perform command).1 = change (project session) command) :
    project (session.run commands) = commands.foldl change (project session) :=
  (List.foldl_hom project fun session command => (h session command).symm).symm

theorem settings_perform :
    (session.perform command).1.dissector.settings =
      session.dissector.settings.configure command := by
  cases command with
  | dissect frame timestamp captured wire =>
      simp only [perform, Dissector.dissect, Settings.configure]
      split <;> rfl
  | _ => rfl

theorem metadata_perform :
    (session.perform command).1.dissector.metadata =
      session.dissector.metadata.describe command := by
  cases command with
  | dissect frame timestamp captured wire =>
      simp only [perform, Dissector.dissect, Metadata.describe]
      split <;> rfl
  | _ => rfl

theorem respond?_perform :
    (session.perform command).1.dissector.respond? =
      (command.respond?).or session.dissector.respond? := by
  cases command with
  | dissect frame timestamp captured wire =>
      simp only [perform, Dissector.dissect, Command.respond?]
      split
      · rfl
      · exact respond_conclude _ _ _ _ _
  | _ => rfl

theorem settings_run :
    (session.run commands).dissector.settings =
      commands.foldl Settings.configure session.dissector.settings :=
  session.run_project commands (fun session => session.dissector.settings) _ settings_perform

theorem metadata_run :
    (session.run commands).dissector.metadata =
      commands.foldl Metadata.describe session.dissector.metadata :=
  session.run_project commands (fun session => session.dissector.metadata) _ metadata_perform

theorem respond?_run :
    (session.run commands).dissector.respond? =
      commands.foldl (fun respond? command => command.respond?.or respond?)
        session.dissector.respond? :=
  session.run_project commands (fun session => session.dissector.respond?) _ respond?_perform

theorem run_preparation :
    (session.run (preparation commands)).dissector.phase = session.dissector.phase ∧
      (session.run (preparation commands)).counters = session.counters := by
  have hprepared : ∀ command ∈ preparation commands,
      command.installs = true ∨ command.describes = true := fun _ => installs_or_describes
  generalize preparation commands = prepared at hprepared
  induction prepared generalizing session with
  | nil => exact ⟨rfl, rfl⟩
  | cons command rest ih =>
      rw [List.forall_mem_cons] at hprepared
      obtain ⟨hcommand, hrest⟩ := hprepared
      obtain ⟨hphase, hcounters⟩ := ih (session.perform command).1 hrest
      cases command with
      | setExtension _ | setPorts _ _ | setTxFlags _ | setHash _ _ => exact ⟨hphase, hcounters⟩
      | _ => simp [Command.installs, Command.describes] at hcommand

end Projections

theorem run_concat (session : Session) (commands : List Command) (command : Command) :
    session.run (commands ++ [command]) = ((session.run commands).perform command).1 :=
  List.foldl_append

/-- The default mask in force at the last reset, or at the start if there was no reset. -/
def resetMask (settings : Settings) (commands : List Command) : UInt64 :=
  ((commands.rdropWhile fun command => !command.isReset).foldl Settings.configure
    settings).defaultMask

theorem resetMask_concat_of_not_reset (settings : Settings) (commands : List Command)
    {command : Command} (h : command.isReset = false) :
    resetMask settings (commands ++ [command]) = resetMask settings commands := by
  rw [resetMask, List.rdropWhile_concat, if_pos (by simp [h]), resetMask]

theorem phase_run_of_idle (settings : Settings) (commands : List Command)
    (h : ((new settings).run commands).dissector.isIdle = true) :
    ((new settings).run commands).dissector.phase = .idle (resetMask settings commands) := by
  induction commands using List.reverseRecOn with
  | nil => rfl
  | append_singleton before command ih =>
      rw [run_concat] at h ⊢
      cases command with
      | reset =>
          have hsettings : before.foldl Settings.configure settings =
              ((new settings).run before).dissector.settings :=
            ((new settings).settings_run before).symm
          rw [resetMask, List.rdropWhile_concat, if_neg (by decide), List.foldl_append, hsettings]
          rfl
      | dissect frame timestamp captured wire =>
          rw [resetMask_concat_of_not_reset settings before rfl]
          cases hcaptured : ((new settings).run before).dissector.captured? frame captured wire with
          | error error =>
              have hcall := perform_dissect_of_refuses timestamp
                (Dissector.captured?_eq_error_iff.mp hcaptured)
              rw [hcall] at h ⊢
              exact ih h
          | ok bytes =>
              obtain ⟨next, events, hcall, hheld⟩ := perform_dissect_of_ok timestamp hcaptured
              rw [hcall, hheld] at h
              cases h
      | _ =>
          rw [resetMask_concat_of_not_reset settings before rfl]
          exact ih h

/-- Two dissectors that wait for a packet and are set alike. -/
structure Alike (dissector other : Dissector) : Prop where
  settings_eq : dissector.settings = other.settings
  metadata_eq : dissector.metadata = other.metadata
  respond_eq : dissector.respond? = other.respond?
  isIdle : dissector.isIdle = true
  isIdle_other : other.isIdle = true

theorem alike_renewed {settings : Settings} {commands : List Command}
    (h : ((new settings).run commands).dissector.isIdle = true) :
    Alike ((new settings).run commands).dissector (renewed settings commands).dissector := by
  refine ⟨?_, ?_, ?_, h, ?_⟩
  · rw [settings_run, renewed, settings_run]
    exact (foldl_configure_preparation _ commands).symm
  · rw [metadata_run, renewed, metadata_run]
    exact (foldl_describe_preparation commands).symm
  · rw [respond?_run, renewed, respond?_run]
    exact (foldl_respond?_preparation commands _).symm
  · have hphase := ((new (commands.foldl Settings.configure settings)).run_preparation commands).1
    rw [renewed, Dissector.isIdle, hphase]
    rfl

end Session

theorem conclude_alike {extension other : Option Extension}
    (h : extension.map Extension.respond = other.map Extension.respond)
    (hstateless : ∀ consulted ∈ extension, consulted.Stateless) (captured : Bytes)
    (table : RecordTable) (offset : Nat) (ending : Ending) :
    (conclude extension captured table offset ending).toRecorded =
      (conclude other captured table offset ending).toRecorded := by
  cases ending with
  | silent | remark note => rfl
  | unclaimed hook =>
      cases extension with
      | none =>
          cases other with
          | none => rfl
          | some _ => cases h
      | some consulted =>
          cases other with
          | none => cases h
          | some another =>
              have hrespond : consulted.respond = another.respond := Option.some.inj h
              have hanswer (offer : Offer) : consulted.respond consulted.past offer =
                  another.respond another.past offer := by
                have hconsulted := hstateless consulted rfl
                rw [hconsulted, ← hrespond, hconsulted another.past]
              simp only [conclude, Extension.consult, hanswer]
              rfl

namespace Session

theorem captured?_alike {dissector other : Dissector} (h : Alike dissector other)
    (frame : Bytes) (captured wire : Nat) :
    other.captured? frame captured wire = dissector.captured? frame captured wire := by
  rw [Dissector.captured?, Dissector.captured?, h.isIdle, h.isIdle_other]

/-- What a packet that is dissected comes to does not depend on the packets before. -/
theorem dissect_alike {dissector other : Dissector} (h : Alike dissector other)
    (hstateless : ∀ consulted ∈ dissector.extension, consulted.Stateless) {frame bytes : Bytes}
    (timestamp : UInt64) {captured wire : Nat}
    (hcaptured : dissector.captured? frame captured wire = .ok bytes)
    (hother : other.captured? frame captured wire = .ok bytes) :
    let outcome := dissector.dissect frame timestamp captured wire
    let otherOutcome := other.dissect frame timestamp captured wire
    outcome.result = otherOutcome.result ∧ outcome.events = otherOutcome.events ∧
      outcome.dissector.phase = otherOutcome.dissector.phase := by
  intro outcome otherOutcome
  have hconclude := conclude_alike h.respond_eq hstateless
  simp only [outcome, otherOutcome, Dissector.dissect, hcaptured, hother, h.settings_eq, hconclude,
    and_self]

theorem packet_congr {dissector other : Dissector} (hphase : dissector.phase = other.phase) :
    dissector.packet = other.packet := by
  unfold Dissector.packet
  rw [hphase]

theorem packet_of_idle {dissector : Dissector} {mask : UInt64}
    (h : dissector.phase = .idle mask) : dissector.packet = .blank mask := by
  unfold Dissector.packet
  rw [h]

theorem write_congr {dissector other : Dissector} (hphase : dissector.phase = other.phase)
    (hmetadata : dissector.metadata = other.metadata) (order : ByteOrder) (buffer : Bytes) :
    dissector.write order buffer = other.write order buffer := by
  unfold Dissector.write Dissector.descriptor?
  rw [hphase, hmetadata]

/-- A call to dissect a packet comes to the same in a session and in a fresh one, but for the
mask of the empty table behind a call that is refused. -/
structure Renews (used fresh : Session) (mask : UInt64) (call : Command) : Prop where
  reply_eq : (used.perform call).2 = (fresh.perform call).2
  settings_eq :
    (used.perform call).1.dissector.settings = (fresh.perform call).1.dissector.settings
  metadata_eq :
    (used.perform call).1.dissector.metadata = (fresh.perform call).1.dissector.metadata
  packet_eq : ∀ count events, (used.perform call).2 = .dissected (.ok count) events →
    (used.perform call).1.dissector.packet = (fresh.perform call).1.dissector.packet
  blank_eq : ∀ error events, (used.perform call).2 = .dissected (.error error) events →
    (used.perform call).1.dissector.packet = .blank mask ∧
      (fresh.perform call).1.dissector.packet = .blank fresh.dissector.settings.defaultMask
  /-- The counters of the fresh session are what the call adds to those of the other. -/
  counters_eq :
    (used.perform call).1.counters = used.counters.add (fresh.perform call).1.counters
  write_eq : ∀ order buffer,
    ((used.perform call).1.perform (.write order buffer)).2 =
      ((fresh.perform call).1.perform (.write order buffer)).2

section Calls

variable {used fresh : Session} {mask : UInt64} {frame : Bytes} {captured wire : Nat}

theorem renews_of_refuses (timestamp : UInt64) (h : Alike used.dissector fresh.dissector)
    (hcounters : fresh.counters = .zero) (hused : used.dissector.packet = .blank mask)
    (hfresh : fresh.dissector.packet = .blank fresh.dissector.settings.defaultMask)
    {error : DissectError}
    (hcaptured : used.dissector.captured? frame captured wire = .error error)
    (hother : fresh.dissector.captured? frame captured wire = .error error) :
    used.Renews fresh mask (.dissect frame timestamp captured wire) := by
  have husedCall :=
    perform_dissect_of_refuses timestamp (Dissector.captured?_eq_error_iff.mp hcaptured)
  have hfreshCall :=
    perform_dissect_of_refuses timestamp (Dissector.captured?_eq_error_iff.mp hother)
  refine ⟨?_, ?_, ?_, ?_, ?_, ?_, ?_⟩
  all_goals rw [husedCall, hfreshCall]
  · exact h.settings_eq
  · exact h.metadata_eq
  · rintro _ _ ⟨⟩
  · exact fun _ _ _ => ⟨hused, hfresh⟩
  · rw [hcounters]
    rfl
  · intro order buffer
    show Reply.written _ = .written _
    rw [Dissector.write_of_idle h.isIdle, Dissector.write_of_idle h.isIdle_other]

theorem renews_of_dissects (timestamp : UInt64) (h : Alike used.dissector fresh.dissector)
    (hcounters : fresh.counters = .zero)
    (hstateless : ∀ consulted ∈ used.dissector.extension, consulted.Stateless) {bytes : Bytes}
    (hcaptured : used.dissector.captured? frame captured wire = .ok bytes)
    (hother : fresh.dissector.captured? frame captured wire = .ok bytes) :
    used.Renews fresh mask (.dissect frame timestamp captured wire) := by
  obtain ⟨hresult, hevents, hphase⟩ := dissect_alike h hstateless timestamp hcaptured hother
  have hsettings := settings_perform used (.dissect frame timestamp captured wire)
  have hmetadata := metadata_perform used (.dissect frame timestamp captured wire)
  rw [h.settings_eq, ← settings_perform] at hsettings
  rw [h.metadata_eq, ← metadata_perform] at hmetadata
  refine ⟨?_, hsettings, hmetadata, ?_, ?_, ?_, ?_⟩
  · show Reply.dissected _ _ = .dissected _ _
    rw [hresult, hevents]
  · exact fun _ _ _ => packet_congr hphase
  · intro error events hreply
    have herror := (used.replies_error_iff frame timestamp captured wire error).mp ⟨_, hreply⟩
    cases hcaptured.symm.trans herror
  · simp only [perform, Dissector.result_dissect timestamp hcaptured,
      Dissector.result_dissect timestamp hother, hevents, hcounters]
    exact Counters.count_eq_add _ _ _ _
  · intro order buffer
    show Reply.written _ = .written _
    rw [hsettings]
    exact congrArg Reply.written (write_congr hphase hmetadata _ _)

end Calls

theorem settings_renewed (settings : Settings) (commands : List Command) :
    (renewed settings commands).dissector.settings =
      commands.foldl Settings.configure settings := by
  rw [renewed, settings_run]
  exact foldl_configure_preparation _ commands

theorem renews_renewed {settings : Settings} {commands : List Command}
    (hstateless : ∀ consulted ∈ ((new settings).run commands).dissector.extension,
      consulted.Stateless)
    (hidle : ((new settings).run commands).dissector.isIdle = true) (frame : Bytes)
    (timestamp : UInt64) (captured wire : Nat) :
    ((new settings).run commands).Renews (renewed settings commands)
      (resetMask settings commands) (.dissect frame timestamp captured wire) := by
  obtain ⟨hphase, hcounters⟩ :=
    (new (commands.foldl Settings.configure settings)).run_preparation commands
  have halike := alike_renewed hidle
  have hused := packet_of_idle (phase_run_of_idle settings commands hidle)
  have hfresh : (renewed settings commands).dissector.packet =
      .blank (renewed settings commands).dissector.settings.defaultMask := by
    rw [settings_renewed]
    exact packet_of_idle hphase
  have hsame := captured?_alike halike frame captured wire
  cases h : ((new settings).run commands).dissector.captured? frame captured wire with
  | error error =>
      exact renews_of_refuses timestamp halike hcounters hused hfresh h (hsame.trans h)
  | ok bytes => exact renews_of_dissects timestamp halike hcounters hstateless h (hsame.trans h)

theorem renewed_reset (settings : Settings) (commands : List Command) :
    renewed settings (commands ++ [.reset]) =
      (new (commands.foldl Settings.configure settings)).run
        (commands.filter Command.installs) := by
  rw [renewed, preparation, List.rtakeWhile_concat, List.filter_append, List.foldl_append]
  simp [Command.installs, Command.isReset, Settings.configure]

/-- The next call to dissect a packet, whatever came before, comes to what it comes to in a
fresh session with the same settings, the same extension, if that is stateless, and the
metadata given since the last reset. Of a packet that is dissected behind a reset the same
bytes are written whatever was dissected before. -/
theorem run_forgets (settings : Settings) (commands : List Command)
    (hstateless : ∀ consulted ∈ ((new settings).run commands).dissector.extension,
      consulted.Stateless) :
    (((new settings).run commands).dissector.isIdle = true →
      ∀ frame timestamp captured wire,
        ((new settings).run commands).Renews (renewed settings commands)
          (resetMask settings commands)
          (.dissect frame timestamp captured wire)) ∧
      ∀ frame timestamp captured wire order buffer,
        (((new settings).run (commands ++ [.reset, .dissect frame timestamp captured wire])).perform
            (.write order buffer)).2 =
          (((new (commands.foldl Settings.configure settings)).run
            (commands.filter Command.installs ++
              [.dissect frame timestamp captured wire])).perform (.write order buffer)).2 := by
  refine ⟨renews_renewed hstateless, ?_⟩
  intro frame timestamp captured wire order buffer
  have hreset := run_concat (new settings) commands .reset
  have hkept : ∀ consulted ∈ ((new settings).run (commands ++ [.reset])).dissector.extension,
      consulted.Stateless := by
    rw [hreset]
    exact hstateless
  have hidle : ((new settings).run (commands ++ [.reset])).dissector.isIdle = true := by
    rw [hreset]
    rfl
  have hwrite := (renews_renewed hkept hidle frame timestamp captured wire).write_eq order buffer
  rw [renewed_reset, ← run_concat, ← run_concat, List.append_assoc] at hwrite
  exact hwrite

/-- The mask behind a call that is refused is the default mask at the last reset. A fresh
session does not have it, whether it is made with the default mask that was set since or is
set to it. -/
theorem mask_of_refused :
    let used := (new .default).run [.setDefaultMask 5, .reset, .setDefaultMask 7]
    let fresh := new { Settings.default with defaultMask := 7 }
    let set := (new .default).run [.setDefaultMask 7]
    let call := Command.dissect [] 0 1 0
    used.dissector.isIdle = true ∧ used.dissector.settings = fresh.dissector.settings ∧
      used.dissector.extension.isNone ∧ fresh.dissector.extension.isNone ∧
      used.dissector.metadata = fresh.dissector.metadata ∧
      (used.perform call).1.dissector.table.mask = 5 ∧
      (fresh.perform call).1.dissector.table.mask = 7 ∧
      (set.perform call).1.dissector.table.mask = 0 := by
  decide

/-- Commands that leave a session with an extension and a packet behind it. -/
def describedCommands : List Command :=
  [.setExtension .idle, .setTxFlags ⟨1⟩, .setDefaultMask 5,
    .dissect (List.replicate 60 0) 7 60 60, .reset, .setPorts 1 2, .setDefaultMask 6]

theorem forgets_describedCommands :
    let used := (new .default).run describedCommands
    let fresh := (new ⟨.ethernet, 6, .little⟩).run [.setExtension .idle, .setPorts 1 2]
    used.dissector.isIdle = true ∧ ∀ frame timestamp captured wire,
      used.Renews fresh 5 (.dissect frame timestamp captured wire) := by
  intro used fresh
  have hidle : used.dissector.isIdle = true := by decide
  have hextension : used.dissector.respond? = some Extension.idle.respond := rfl
  refine ⟨hidle, (run_forgets .default describedCommands ?_).1 hidle⟩
  intro consulted hconsulted past offer
  have hrespond : consulted.respond = Extension.idle.respond := by
    have h : used.dissector.respond? = some consulted.respond :=
      congrArg (Option.map Extension.respond) hconsulted
    exact Option.some.inj (h.symm.trans hextension)
  rw [hrespond]
  rfl

end Session

end Dissection

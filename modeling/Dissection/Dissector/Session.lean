import Dissection.Dissector.Dissect

/-!
Sessions: a dissector together with counters of what it did, driven by a list of
commands. Only a packet that is dissected moves the counters.
-/

namespace Dissection

/-- Counters of dissections. -/
structure Counters where
  packets : Nat
  bytes : Nat
  /-- Packets of which not even the Ethernet header was recorded. -/
  unrecognized : Nat
  recordsAdded : Nat
  recordsRefused : Nat
  deriving DecidableEq, Repr

namespace Counters

def zero : Counters :=
  ⟨0, 0, 0, 0, 0⟩

/-- Counts a packet of `captured` bytes whose dissection gave a result. -/
def count (counters : Counters) (captured result : Nat) (events : List Event) :
    Counters where
  packets := counters.packets + 1
  bytes := counters.bytes + captured
  unrecognized := counters.unrecognized + if result = 0 then 1 else 0
  recordsAdded := counters.recordsAdded + events.countP Event.isAdded
  recordsRefused := counters.recordsRefused + events.countP Event.isRefused

end Counters

/-- A dissector and its counters. -/
structure Session where
  dissector : Dissector
  counters : Counters

/-- Something a caller asks of a session that may change it. -/
inductive Command where
  | reset
  | setDatalink (datalink : Datalink)
  | setDefaultMask (mask : UInt64)
  | setOrder (order : ByteOrder)
  | setExtension (extension : Extension)
  | setPorts (rxPort txPort : UInt8)
  | setTxFlags (flags : TxFlags)
  | setHash (hash : UInt32) (type : HashType)
  | dissect (frame : Bytes) (timestamp : UInt64) (captured wire : Nat)
  /-- Writes a descriptor into a buffer, in the byte order of the dissector if none
  is given. -/
  | write (order : Option ByteOrder) (buffer : Bytes)
  | clearCounters

/-- What a command answers. -/
inductive Reply where
  | done
  | dissected (result : Except DissectError Nat) (events : List Event)
  | written (result : Except WriteError Bytes)

def Reply.log : Reply → List LogLine
  | .done => []
  | .dissected (.error error) _ => [error.logLine]
  | .dissected (.ok _) events => events.filterMap Event.logLine?
  | .written (.error error) => error.logLine?.toList
  | .written (.ok _) => []

namespace Session

def new (settings : Settings) : Session :=
  ⟨.new settings, .zero⟩

def update (session : Session) (change : Dissector → Dissector) : Session × Reply :=
  ({ session with dissector := change session.dissector }, .done)

def perform (session : Session) : Command → Session × Reply
  | .reset => session.update .reset
  | .setDatalink datalink => session.update (·.setDatalink datalink)
  | .setDefaultMask mask => session.update (·.setDefaultMask mask)
  | .setOrder order => session.update (·.setOrder order)
  | .setExtension extension => session.update (·.setExtension extension)
  | .setPorts rxPort txPort => session.update (·.setPorts rxPort txPort)
  | .setTxFlags flags => session.update (·.setTxFlags flags)
  | .setHash hash type => session.update (·.setHash hash type)
  | .dissect frame timestamp captured wire =>
      let outcome := session.dissector.dissect frame timestamp captured wire
      let counters :=
        match outcome.result with
        | .error _ => session.counters
        | .ok result => session.counters.count captured result outcome.events
      (⟨outcome.dissector, counters⟩, .dissected outcome.result outcome.events)
  | .write order buffer =>
      let order := order.getD session.dissector.settings.order
      (session, .written (session.dissector.write order buffer))
  | .clearCounters => ({ session with counters := .zero }, .done)

def run (session : Session) (commands : List Command) : Session :=
  commands.foldl (fun session command => (session.perform command).1) session

end Session

end Dissection

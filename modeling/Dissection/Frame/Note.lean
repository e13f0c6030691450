import Dissection.Bytes.Hex

namespace Dissection

/-- How much a log line matters. -/
inductive LogLevel where
  | trace
  | debug
  | info
  | warn
  deriving DecidableEq, Repr

def LogLevel.name : LogLevel → String
  | .trace => "trace"
  | .debug => "debug"
  | .info => "info"
  | .warn => "warn"

/-- One line of a log. -/
structure LogLine where
  level : LogLevel
  message : String
  deriving DecidableEq, Repr

/-- Something noticed at a place in a frame. -/
inductive Note where
  | notIpv4 (version : Nat)
  | notIpv6 (version : Nat)
  | shortIpv4 (length : Nat)
  | shortTcp (length : Nat)
  | nestingLimit (depth : Nat)
  | unknownEtherType (etherType : Nat)
  | unknownServicePoints (destination source : Nat)
  | unknownBridgeUnit (kind : Nat)
  | unknownLabelled (version : Nat)
  | unknownIpNumber (number : Nat)
  | unknownGrePayload (etherType : Nat)
  | malformedOption (kind length : Nat)
  | skippedOption (kind : Nat)
  | overrunningHopByHop (kind : Nat)
  | skippedHopByHop (kind : Nat)
  | emptyNdOption (kind : Nat)
  | skippedNdOption (kind : Nat)
  deriving DecidableEq, Repr

namespace Note

/-- What is malformed matters more than what is not recognized. -/
def level : Note → LogLevel
  | .shortIpv4 _ => .debug
  | .shortTcp _ => .debug
  | .nestingLimit _ => .debug
  | .malformedOption _ _ => .debug
  | .overrunningHopByHop _ => .debug
  | .emptyNdOption _ => .debug
  | _ => .trace

def message (offset : Nat) : Note → String
  | .notIpv4 version => s!"Expected IPv4 at {offset}, found version {version}"
  | .notIpv6 version => s!"Expected IPv6 at {offset}, found version {version}"
  | .shortIpv4 length => s!"IPv4 header length {length} below minimum at {offset}"
  | .shortTcp length => s!"TCP data offset {length} below minimum at {offset}"
  | .nestingLimit depth => s!"Nesting depth {depth} reached, not descending"
  | .unknownEtherType etherType =>
      s!"Unrecognized EtherType {Hex.literal 4 etherType} at {offset}"
  | .unknownServicePoints destination source =>
      s!"Unrecognized LLC SAPs {Hex.literal 2 destination}/{Hex.literal 2 source}"
  | .unknownBridgeUnit kind => s!"Unrecognized BPDU type {Hex.literal 2 kind}"
  | .unknownLabelled version => s!"Unrecognized MPLS payload version {version}"
  | .unknownIpNumber number => s!"Unrecognized IP protocol {number} at {offset}"
  | .unknownGrePayload etherType =>
      s!"Unrecognized GRE payload {Hex.literal 4 etherType}"
  | .malformedOption kind length =>
      s!"Malformed option {kind} of length {length} at {offset}"
  | .skippedOption kind => s!"Skipping unrecognized option {kind} at {offset}"
  | .overrunningHopByHop kind =>
      s!"Hop-by-Hop option {kind} overruns header at {offset}"
  | .skippedHopByHop kind =>
      s!"Skipping unrecognized Hop-by-Hop option {Hex.literal 2 kind}"
  | .emptyNdOption kind => s!"Zero-length ND option {kind} at {offset}"
  | .skippedNdOption kind => s!"Skipping unrecognized ND option {kind} at {offset}"

def logLine (offset : Nat) (note : Note) : LogLine :=
  ⟨note.level, note.message offset⟩

end Note

end Dissection

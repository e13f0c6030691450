import Dissection.Dissector.Basic
import Dissection.Toml.Document

namespace Dissection

/-- Why settings cannot be read. -/
inductive SettingsError where
  /-- The text is not TOML, or sets something to what it cannot be. -/
  | invalid
  /-- There is no text to read. -/
  | unreadable (path : String)
  deriving DecidableEq, Repr

def SettingsError.message : SettingsError → String
  | .invalid => "Invalid config file"
  | .unreadable path => "Failed to read config file " ++ path

namespace Settings

open Toml

/-- What a document sets a key to, or the default. -/
def read {α : Type} (document : Document) (key : String) (default : α)
    (ofValue : Value → Option α) : Option α :=
  if document.sections.any fun table => table.path.head? == some key then none
  else
    match document.entries.filter (·.1 == key) with
    | [] => some default
    | [(_, value)] => ofValue value
    | _ => none

/-- A choice among names: the name in quotes, or in braces as the only key, set to
an empty table. -/
def choice {α : Type} (names : List (String × α)) : Value → Option α
  | .text name => names.lookup name
  | .inlineTable [(name, .inlineTable [])] => names.lookup name
  | .inlineTable [(name, .dottedTable [])] => names.lookup name
  | _ => none

def mask : Value → Option UInt64
  | .integer value => if 0 ≤ value then some value.toNat.toUInt64 else none
  | _ => none

def datalinks : List (String × Datalink) :=
  [("ethernet", .ethernet), ("novell_raw", .novellRaw)]

def orders : List (String × ByteOrder) :=
  [("big", .big), ("little", .little)]

/-- The names of descriptor layouts, of which there is one. -/
def layouts : List (String × Unit) :=
  [("type2", ())]

def parse (text : String) : Except SettingsError Settings :=
  let settings? := do
    let document ← document? text
    let datalink ← read document "datalink" default.datalink (choice datalinks)
    let defaultMask ← read document "default_bitmask" default.defaultMask mask
    let order ← read document "byte_order" default.order (choice orders)
    let () ← read document "descriptor_type" () (choice layouts)
    some ⟨datalink, defaultMask, order⟩
  match settings? with
  | some settings => .ok settings
  | none => .error .invalid

/-- The settings in the bytes of a file, which have to be UTF-8. -/
def parseFile (path : String) (content : Bytes) : Except SettingsError Settings :=
  match String.fromUTF8? ⟨content.toArray⟩ with
  | some text => parse text
  | none => .error (.unreadable path)

def describe (settings : Settings) : String :=
  let datalink :=
    match settings.datalink with
    | .ethernet => "Ethernet"
    | .novellRaw => "NovellRaw"
  let order :=
    match settings.order with
    | .big => "Big"
    | .little => "Little"
  "DissectorConfig \x7b datalink: " ++ datalink ++ ", default_bitmask: " ++
    toString settings.defaultMask.toNat ++ ", byte_order: " ++ order ++
    ", descriptor_type: Type2 \x7d"

/-- The log line of settings that were read from a file. -/
def loadedLine (path : String) (settings : Settings) : LogLine :=
  ⟨.info, "Loaded dissector config from " ++ path ++ ": " ++ settings.describe⟩

end Settings

end Dissection

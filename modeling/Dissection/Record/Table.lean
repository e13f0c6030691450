import Dissection.Record.Basic

namespace Dissection

/-- The index and record of the `depth`-th record, from zero, with an
identifier. -/
def lookupRecord (records : List Record) (id : ProtocolId) (depth : Nat) :
    Option (Nat × Record) :=
  (records.zipIdx.filter fun entry => entry.1.id == id)[depth]?.map fun entry =>
    (entry.2, entry.1)

theorem lookupRecord_eq_some {records : List Record} {id : ProtocolId}
    {depth index : Nat} {record : Record}
    (h : lookupRecord records id depth = some (index, record)) :
    records[index]? = some record ∧ record.id = id := by
  obtain ⟨⟨found, position⟩, hfound, heq⟩ := Option.map_eq_some_iff.mp h
  obtain ⟨rfl, rfl⟩ := Prod.mk.inj heq
  have hmem := List.mem_of_getElem? hfound
  rw [List.mem_filter] at hmem
  exact ⟨by simpa [List.mem_zipIdx_iff_getElem?] using hmem.1, by simpa using hmem.2⟩

/-- A look-up succeeds at the depths below the count of records with the
identifier. -/
theorem lookupRecord_isSome_iff (records : List Record) (id : ProtocolId)
    (depth : Nat) :
    (lookupRecord records id depth).isSome ↔
      depth < records.countP fun record => record.id == id := by
  have hcount : (records.zipIdx.filter fun entry => entry.1.id == id).length =
      records.countP fun record => record.id == id := by
    rw [← List.countP_eq_length_filter]
    conv =>
      rhs
      rw [← List.zipIdx_map_fst 0 records]
    rw [List.countP_map]
    rfl
  simp [lookupRecord, hcount]

/-- A place in a frame for which a record is asked. It need not fit anything. -/
structure Placement where
  id : ProtocolId
  offset : Nat
  length : Nat
  deriving DecidableEq, Repr

/-- The bit that a recorded protocol sets in the mask: the one at its ordinal for
a core protocol below 64, none for any other. -/
def ProtocolId.maskBit (id : ProtocolId) : UInt64 :=
  if id.isCore && id.ordinal < 64 then 1 <<< id.ordinal.toUInt64 else 0

/-- The records of one packet. -/
structure RecordTable where
  records : List Record
  /-- The core protocols seen, by ordinal. -/
  mask : UInt64
  /-- The captured length, behind which no record ends. -/
  limit : Nat
  deriving DecidableEq, Repr

namespace RecordTable

def capacity : Nat := 32

/-- The table of a packet of `limit` captured bytes before anything is found. -/
def empty (limit : Nat) (mask : UInt64) : RecordTable :=
  ⟨[], mask, limit⟩

def size (table : RecordTable) : Nat :=
  table.records.length

def isFull (table : RecordTable) : Bool :=
  table.size = capacity

/-- Whether a place lies within the captured bytes and within sixteen bits. -/
def fits (table : RecordTable) (offset length : Nat) : Bool :=
  offset ≤ 65535 && length ≤ 65535 && offset + length ≤ table.limit

/-- Appends a record, unless the table is full or the place does not fit. -/
def add? (table : RecordTable) (place : Placement) : Option RecordTable :=
  if table.isFull || !table.fits place.offset place.length then
    none
  else
    some
      { table with
        records := table.records ++ [.ofNats place.id place.offset place.length]
        mask := table.mask ||| place.id.maskBit }

/-- Gives the record at an index another length, unless there is none or it would
no longer fit. -/
def resize? (table : RecordTable) (index length : Nat) : Option RecordTable := do
  let record ← table.records[index]?
  if table.fits record.start length then
    some
      { table with
        records := table.records.set index { record with length := length.toUInt16 } }
  else
    none

def get? (table : RecordTable) (index : Nat) : Option Record :=
  table.records[index]?

/-- The index and record of the `depth`-th record with an identifier. -/
def lookup (table : RecordTable) (id : ProtocolId) (depth : Nat) :
    Option (Nat × Record) :=
  lookupRecord table.records id depth

def contains (table : RecordTable) (kind : HeaderKind) : Bool :=
  table.mask &&& kind.mask != 0

def describe (table : RecordTable) : String :=
  "RecordTable \x7b records: [" ++
    ", ".intercalate (table.records.map Record.describe) ++
    "], bitmask: " ++ Hex.literal 16 table.mask.toNat ++
    ", limit: " ++ toString table.limit ++ " \x7d"

theorem fits_iff (table : RecordTable) (offset length : Nat) :
    table.fits offset length = true ↔
      offset ≤ 65535 ∧ length ≤ 65535 ∧ offset + length ≤ table.limit := by
  simp [fits, and_assoc]

theorem add?_isSome_iff (table : RecordTable) (place : Placement) :
    (table.add? place).isSome ↔
      table.size ≠ capacity ∧ place.offset ≤ 65535 ∧ place.length ≤ 65535 ∧
        place.offset + place.length ≤ table.limit := by
  unfold add?
  split
  · rename_i h
    simp [isFull, ← fits_iff] at h ⊢
    intro hroom
    simpa [hroom] using h
  · rename_i h
    simp [isFull, ← fits_iff] at h ⊢
    exact h

end RecordTable

end Dissection

namespace Dissection

abbrev Bytes := List UInt8

namespace Bytes

def u8? (bytes : Bytes) (offset : Nat) : Option Nat :=
  bytes[offset]?.map UInt8.toNat

/-- The 16-bit word at an offset, most significant byte first. -/
def u16? (bytes : Bytes) (offset : Nat) : Option Nat := do
  let high ← u8? bytes offset
  let low ← u8? bytes (offset + 1)
  some (high * 256 + low)

/-- The 24-bit word at an offset, most significant byte first. -/
def u24? (bytes : Bytes) (offset : Nat) : Option Nat := do
  let high ← u8? bytes offset
  let low ← u16? bytes (offset + 1)
  some (high * 65536 + low)

/-- The 32-bit word at an offset, most significant byte first. -/
def u32? (bytes : Bytes) (offset : Nat) : Option Nat := do
  let high ← u16? bytes offset
  let low ← u16? bytes (offset + 2)
  some (high * 65536 + low)

/-- Whether at least `count` bytes are there. It looks at no more than `count`
of them, so asking is cheap on a long capture. -/
def has : Bytes → Nat → Bool
  | _, 0 => true
  | [], _ + 1 => false
  | _ :: rest, count + 1 => has rest count

theorem has_eq_true_iff (bytes : Bytes) (count : Nat) :
    has bytes count = true ↔ count ≤ bytes.length := by
  induction count generalizing bytes with
  | zero => simp [has]
  | succ count ih =>
      cases bytes with
      | nil => simp [has]
      | cons _ rest => simp [has, ih]

theorem u8?_isSome_iff (bytes : Bytes) (offset : Nat) :
    (u8? bytes offset).isSome ↔ offset < bytes.length := by
  simp [u8?]

theorem exists_u8? (bytes : Bytes) (offset : Nat) (h : offset < bytes.length) :
    ∃ value, u8? bytes offset = some value :=
  Option.isSome_iff_exists.mp ((u8?_isSome_iff bytes offset).mpr h)

theorem exists_u16? (bytes : Bytes) (offset : Nat) (h : offset + 1 < bytes.length) :
    ∃ value, u16? bytes offset = some value := by
  obtain ⟨high, hhigh⟩ := exists_u8? bytes offset (Nat.lt_of_succ_lt h)
  obtain ⟨low, hlow⟩ := exists_u8? bytes (offset + 1) h
  exact ⟨high * 256 + low, by simp [u16?, hhigh, hlow]⟩

theorem exists_u32? (bytes : Bytes) (offset : Nat) (h : offset + 3 < bytes.length) :
    ∃ value, u32? bytes offset = some value := by
  obtain ⟨high, hhigh⟩ := exists_u16? bytes offset (by omega)
  obtain ⟨low, hlow⟩ := exists_u16? bytes (offset + 2) h
  exact ⟨high * 65536 + low, by simp [u32?, hhigh, hlow]⟩

theorem u8?_lt {bytes : Bytes} {offset value : Nat}
    (h : u8? bytes offset = some value) : value < 256 := by
  obtain ⟨byte, _, rfl⟩ := Option.map_eq_some_iff.mp h
  exact byte.toNat_lt

theorem u16?_lt {bytes : Bytes} {offset value : Nat}
    (h : u16? bytes offset = some value) : value < 65536 := by
  simp only [u16?, Option.bind_eq_bind, Option.bind_eq_some_iff,
    Option.some.injEq] at h
  obtain ⟨high, hhigh, low, hlow, rfl⟩ := h
  have := u8?_lt hhigh
  have := u8?_lt hlow
  omega

theorem u8?_drop (bytes : Bytes) (count offset : Nat) :
    u8? (bytes.drop count) offset = u8? bytes (count + offset) := by
  simp [u8?]

theorem u16?_drop (bytes : Bytes) (count offset : Nat) :
    u16? (bytes.drop count) offset = u16? bytes (count + offset) := by
  simp [u16?, u8?_drop, Nat.add_assoc]

theorem u32?_drop (bytes : Bytes) (count offset : Nat) :
    u32? (bytes.drop count) offset = u32? bytes (count + offset) := by
  simp [u32?, u16?_drop, Nat.add_assoc]

end Bytes

/-- Why a read fails. -/
inductive ReadError where
  /-- Nothing begins at the offset. -/
  | badOffset
  /-- The bytes end before what is read does. -/
  | pastEnd
  deriving DecidableEq, Repr

def ReadError.message : ReadError → String
  | .badOffset => "Offset exceeds view length"
  | .pastEnd => "Data read exceeds view"

namespace Bytes

def window (bytes : Bytes) (count : Nat) : Except ReadError Bytes :=
  if has bytes count then .ok (bytes.take count) else .error .pastEnd

def hasAt (bytes : Bytes) (offset count : Nat) : Bool :=
  offset + count ≤ bytes.length

/-- The `count` bytes at an offset. An offset at or behind the end is bad even
for an empty slice. -/
def slice (bytes : Bytes) (offset count : Nat) : Except ReadError Bytes :=
  if bytes.length ≤ offset then .error .badOffset
  else if hasAt bytes offset count then .ok ((bytes.drop offset).take count)
  else .error .pastEnd

/-- The number that `width` bytes at an offset spell, most significant first. -/
def readWord (bytes : Bytes) (width offset : Nat) : Except ReadError Nat := do
  let word ← slice bytes offset width
  return word.foldl (fun high byte => high * 256 + byte.toNat) 0

theorem slice_eq_ok_iff (bytes : Bytes) (offset count : Nat) (part : Bytes) :
    slice bytes offset count = .ok part ↔
      offset < bytes.length ∧ offset + count ≤ bytes.length ∧
        part = (bytes.drop offset).take count := by
  unfold slice
  split
  · constructor
    · intro h
      cases h
    · rintro ⟨hoffset, _⟩
      omega
  · rename_i hoffset
    split
    · rename_i hcount
      rw [hasAt, decide_eq_true_eq] at hcount
      constructor
      · rintro h
        cases h
        exact ⟨by omega, hcount, rfl⟩
      · rintro ⟨_, _, rfl⟩
        rfl
    · rename_i hcount
      rw [hasAt, decide_eq_true_eq] at hcount
      constructor
      · intro h
        cases h
      · rintro ⟨_, hfits, _⟩
        exact absurd hfits hcount

end Bytes

end Dissection

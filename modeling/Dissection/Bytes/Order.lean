import Dissection.Bytes.Basic

namespace Dissection

/-- The order in which the bytes of a number are laid out. -/
inductive ByteOrder where
  | big
  | little
  deriving DecidableEq, Repr, Inhabited

namespace ByteOrder

/-- The `width` base-256 digits of a number, least significant first. -/
def digits : Nat → Nat → Bytes
  | 0, _ => []
  | width + 1, value => value.toUInt8 :: digits width (value / 256)

/-- The number with the given base-256 digits, least significant first. -/
def ofDigits : Bytes → Nat
  | [] => 0
  | digit :: rest => digit.toNat + 256 * ofDigits rest

/-- Writes a number in `width` bytes; what does not fit them is dropped. -/
def encode (order : ByteOrder) (width value : Nat) : Bytes :=
  match order with
  | .little => digits width value
  | .big => (digits width value).reverse

def decode (order : ByteOrder) (bytes : Bytes) : Nat :=
  match order with
  | .little => ofDigits bytes
  | .big => ofDigits bytes.reverse

@[simp] theorem digits_length (width value : Nat) :
    (digits width value).length = width := by
  induction width generalizing value with
  | zero => rfl
  | succ width ih => simp [digits, ih]

@[simp] theorem encode_length (order : ByteOrder) (width value : Nat) :
    (order.encode width value).length = width := by
  cases order <;> simp [encode]

theorem ofDigits_digits (width value : Nat) :
    ofDigits (digits width value) = value % Nat.pow 256 width := by
  induction width generalizing value with
  | zero => simp [digits, ofDigits, Nat.mod_one]
  | succ width ih =>
      have hdigit : value.toUInt8.toNat = value % 256 := by simp
      have hpow : Nat.pow 256 (width + 1) = 256 * Nat.pow 256 width := Nat.mul_comm _ _
      rw [digits, ofDigits, ih, hdigit, hpow, Nat.mod_mul]

theorem ofDigits_lt (bytes : Bytes) : ofDigits bytes < Nat.pow 256 bytes.length := by
  induction bytes with
  | nil => simp [ofDigits]
  | cons digit rest ih =>
      have hdigit := digit.toNat_lt
      show digit.toNat + 256 * ofDigits rest < Nat.pow 256 rest.length * 256
      omega

/-- A number that fits the width is read back as it was written. -/
theorem decode_encode (order : ByteOrder) {width value : Nat}
    (hvalue : value < Nat.pow 256 width) :
    order.decode (order.encode width value) = value := by
  have hdigits : ofDigits (digits width value) = value := by
    rw [ofDigits_digits, Nat.mod_eq_of_lt hvalue]
  cases order <;> simp [decode, encode, hdigits]

end ByteOrder

end Dissection

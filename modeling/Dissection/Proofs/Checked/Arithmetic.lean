import Mathlib.Algebra.Group.Nat.Defs
import Dissection.Proofs.Scanning

/-!
Checked arithmetic. It is a fault to keep a value in fewer bits than it needs, to take away more
than there is, to shift a word by its width or more, and to use a slot that a table does not have.
Reads at an offset and walks over captured bytes are given here with every step checked.
-/

namespace Dissection

namespace Bytes

theorem readWord_drop (bytes : Bytes) (width offset : Nat) :
    bytes.readWord width offset = readWord (bytes.drop offset) width 0 := by
  have hslice : bytes.slice offset width = slice (bytes.drop offset) 0 width := by
    by_cases hwithin : bytes.length ≤ offset
    · simp [slice, hwithin]
    · have hbehind : ¬bytes.length - offset ≤ 0 := by omega
      have hends : offset + width ≤ bytes.length ↔ 0 + width ≤ bytes.length - offset := by omega
      simp only [slice, hasAt, List.length_drop, List.drop_zero, decide_eq_true_eq,
        hwithin, hbehind, hends, if_false]
  rw [readWord, readWord, hslice]

theorem toOption_readWord_two (bytes : Bytes) (offset : Nat) :
    (bytes.readWord 2 offset).toOption = bytes.u16? offset := by
  have hword := u16?_drop bytes offset 0
  rw [Nat.add_zero] at hword
  rw [readWord_drop, ← hword]
  match bytes.drop offset with
  | [] => rfl
  | [_] => rfl
  | high :: low :: rest =>
      simp [readWord, slice, hasAt, u16?, u8?, Functor.map,
        Except.map, Except.toOption]

theorem toOption_readWord_four (bytes : Bytes) (offset : Nat) :
    (bytes.readWord 4 offset).toOption = bytes.u32? offset := by
  have hword := u32?_drop bytes offset 0
  rw [Nat.add_zero] at hword
  rw [readWord_drop, ← hword]
  match bytes.drop offset with
  | [] => rfl
  | [_] => rfl
  | [_, _] => rfl
  | [_, _, _] => rfl
  | first :: second :: third :: last :: rest =>
      simp [readWord, slice, hasAt, u32?, u16?, u8?,
        Functor.map, Except.map, Except.toOption]
      omega

end Bytes

/-- What can go wrong in arithmetic on numbers of limited width. -/
inductive Fault where
  /-- A value does not fit its width. -/
  | overflow
  /-- More is taken away than there is. -/
  | underflow
  /-- A word of 64 bits is shifted by 64 or more. -/
  | shift
  /-- A table has no slot of that number. -/
  | slot
  deriving DecidableEq, Repr

/-- The outcome of a computation all of whose arithmetic is checked. -/
abbrev Checked := Except Fault

namespace Checked

/-- A value that is kept in so many bits. The parts of a sum or a product are no greater than the
whole, so they fit if it does. -/
def fit (bits value : Nat) : Checked Nat :=
  if value < 2 ^ bits then .ok value else .error .overflow

/-- A value that is kept in a machine word. -/
def word (value : Nat) : Checked Nat :=
  fit 64 value

def less (value taken : Nat) : Checked Nat :=
  if taken ≤ value then .ok (value - taken) else .error .underflow

@[simp] theorem ok_bind {α β : Type} (value : α) (next : α → Checked β) :
    ((Except.ok value : Checked α) >>= next) = next value :=
  rfl

theorem fit_eq_ok_iff {bits value kept : Nat} :
    fit bits value = .ok kept ↔ value < 2 ^ bits ∧ kept = value := by
  unfold fit
  split
  · rename_i hfits
    simp [hfits, eq_comm]
  · rename_i hwide
    simp [hwide]

theorem fit_eq {bits value : Nat} (h : value < 2 ^ bits) : fit bits value = .ok value :=
  fit_eq_ok_iff.mpr ⟨h, rfl⟩

theorem word_eq {value : Nat} (h : value < 2 ^ 64) : word value = .ok value :=
  fit_eq h

theorem less_eq {value taken : Nat} (h : taken ≤ value) :
    less value taken = .ok (value - taken) :=
  if_pos h

section Reads

/-- Whether there are `count` bytes at an offset. Where their end is too wide for a word there are
not, and asking is no fault. -/
def hasAt (bytes : Bytes) (offset count : Nat) : Bool :=
  match word (offset + count) with
  | .ok stop => stop ≤ bytes.length
  | .error _ => false

/-- The `count` bytes at an offset. Their end is computed only where they are known to be
there. -/
def slice (bytes : Bytes) (offset count : Nat) : Checked (Except ReadError Bytes) :=
  if bytes.length ≤ offset then .ok (.error .badOffset)
  else if hasAt bytes offset count then do
    let stop ← word (offset + count)
    .ok (.ok ((bytes.take stop).drop offset))
  else .ok (.error .pastEnd)

def readWord (bytes : Bytes) (width offset : Nat) : Checked (Except ReadError Nat) := do
  match ← slice bytes offset width with
  | .error error => .ok (.error error)
  | .ok part => .ok (.ok (part.foldl (fun high byte => high * 256 + byte.toNat) 0))

theorem hasAt_eq {bytes : Bytes} (h : bytes.length < 2 ^ 64) (offset count : Nat) :
    hasAt bytes offset count = bytes.hasAt offset count := by
  unfold hasAt Bytes.hasAt
  by_cases hfits : offset + count < 2 ^ 64
  · rw [word_eq hfits]
  · rw [word, fit, if_neg hfits]
    symm
    rw [decide_eq_false_iff_not]
    omega

theorem slice_eq {bytes : Bytes} (h : bytes.length < 2 ^ 64) (offset count : Nat) :
    slice bytes offset count = .ok (bytes.slice offset count) := by
  unfold slice Bytes.slice
  rw [hasAt_eq h]
  split
  · rfl
  · split
    · rename_i hthere
      rw [Bytes.hasAt, decide_eq_true_eq] at hthere
      rw [word_eq (by omega), ok_bind, List.take_drop]
    · rfl

theorem readWord_eq {bytes : Bytes} (h : bytes.length < 2 ^ 64) (width offset : Nat) :
    readWord bytes width offset = .ok (bytes.readWord width offset) := by
  unfold readWord Bytes.readWord
  rw [slice_eq h, ok_bind]
  cases bytes.slice offset width <;> rfl

def u8At (bytes : Bytes) (offset index : Nat) : Checked (Option Nat) := do
  let place ← word (offset + index)
  .ok (bytes.u8? place)

def u16At (bytes : Bytes) (offset index : Nat) : Checked (Option Nat) := do
  let place ← word (offset + index)
  let read ← readWord bytes 2 place
  .ok read.toOption

def u32At (bytes : Bytes) (offset index : Nat) : Checked (Option Nat) := do
  let place ← word (offset + index)
  let read ← readWord bytes 4 place
  .ok read.toOption

end Reads

/-- Captured bytes with an offset that lies at most `reach` bytes behind their end. -/
structure Readable (captured : Bytes) (reach offset : Nat) : Prop where
  captured_le : captured.length ≤ 65535
  offset_le : offset ≤ captured.length + reach

section Reading

variable {captured : Bytes} {reach offset index : Nat}

theorem Readable.length_lt (h : Readable captured reach offset) : captured.length < 2 ^ 64 :=
  Nat.lt_of_le_of_lt h.captured_le (by decide)

theorem Readable.add (h : Readable captured reach offset) (distance : Nat) :
    Readable captured (reach + distance) (offset + distance) :=
  ⟨h.captured_le, by have := h.offset_le; omega⟩

theorem Readable.mono (h : Readable captured reach offset) {other : Nat} (hreach : reach ≤ other) :
    Readable captured other offset :=
  ⟨h.captured_le, by have := h.offset_le; omega⟩

theorem u8At_eq (h : Readable captured reach offset) (hindex : reach + index < 2 ^ 16) :
    u8At captured offset index = .ok (Bytes.u8? (captured.drop offset) index) := by
  obtain ⟨hcaptured, hoffset⟩ := h
  rw [u8At, word_eq (by omega), ok_bind, Bytes.u8?_drop]

theorem u16At_eq (h : Readable captured reach offset) (hindex : reach + index < 2 ^ 16) :
    u16At captured offset index = .ok (Bytes.u16? (captured.drop offset) index) := by
  have hlength := h.length_lt
  obtain ⟨hcaptured, hoffset⟩ := h
  rw [u16At, word_eq (by omega), ok_bind, readWord_eq hlength, ok_bind,
    Bytes.toOption_readWord_two, Bytes.u16?_drop]

theorem u32At_eq (h : Readable captured reach offset) (hindex : reach + index < 2 ^ 16) :
    u32At captured offset index = .ok (Bytes.u32? (captured.drop offset) index) := by
  have hlength := h.length_lt
  obtain ⟨hcaptured, hoffset⟩ := h
  rw [u32At, word_eq (by omega), ok_bind, readWord_eq hlength, ok_bind,
    Bytes.toOption_readWord_four, Bytes.u32?_drop]

end Reading

section Walks

variable {σ τ α ω : Type}

def walkUpTo (step : σ → Nat → Checked (Move σ α ω)) (cut : ω) (captured : Bytes) :
    Nat → σ → Nat → Checked (Scanned α ω)
  | 0, _, _ => .ok ⟨[], cut⟩
  | room + 1, state, offset => do
      match ← step state offset with
      | .stop verdict => .ok ⟨[], verdict⟩
      | .take item size next =>
          let stop ← word (offset + size)
          if stop ≤ captured.length then
            let behind ← walkUpTo step cut captured room next stop
            .ok (behind.cons item)
          else .ok ⟨[item], cut⟩

/-- Walks captured bytes from an offset on, as a scan does. The offset at which an item ends is
computed before it is known to be captured. -/
def walk (step : σ → Nat → Checked (Move σ α ω)) (cut : ω) (captured : Bytes) (state : σ)
    (offset : Nat) : Checked (Scanned α ω) :=
  walkUpTo step cut captured (captured.length + 1) state offset

/-- A move at an offset as a scan makes it, which keeps of a state what `view` shows from there. -/
def seen (view : Nat → σ → τ) (offset : Nat) : Move σ α ω → Move τ α ω
  | .take item size next => .take item size (view (offset + size) next)
  | .stop verdict => .stop verdict

/-- A move over fewer than 2 ^ 32 bytes, to a state that is valid. -/
def Keeps (valid : σ → Prop) : Move σ α ω → Prop
  | .take _ size next => size < 2 ^ 32 ∧ valid next
  | .stop _ => True

/-- Where it may be made, a checked step does not fault and does what the step of a scan does. -/
def Follows (captured : Bytes) (reach : Nat) (checked : σ → Nat → Checked (Move σ α ω))
    (step : τ → Bytes → Move τ α ω) (view : Nat → σ → τ) (valid : σ → Prop) : Prop :=
  ∀ state offset, valid state → Readable captured reach offset →
    ∃ move, checked state offset = .ok move ∧ Keeps valid move ∧
      step (view offset state) (captured.drop offset) = seen view offset move

variable {captured : Bytes} {reach : Nat} {checked : σ → Nat → Checked (Move σ α ω)}
  {step : τ → Bytes → Move τ α ω} {view : Nat → σ → τ} {valid : σ → Prop}

@[simp] theorem seen_state (offset : Nat) (move : Move σ α ω) :
    seen (fun _ state => state) offset move = move := by
  cases move <;> rfl

theorem Follows.of_eq {step : σ → Bytes → Move σ α ω}
    (heq : ∀ state offset, valid state → Readable captured reach offset →
      checked state offset = .ok (step state (captured.drop offset)))
    (hkeeps : ∀ state offset, valid state → Keeps valid (step state (captured.drop offset))) :
    Follows captured reach checked step (fun _ state => state) valid := by
  intro state offset hvalid hreadable
  exact ⟨_, heq state offset hvalid hreadable, hkeeps state offset hvalid, (seen_state _ _).symm⟩

theorem walkUpTo_eq (cut : ω) (hstep : Advances step)
    (h : Follows captured reach checked step view valid) (hreach : reach < 2 ^ 16)
    {room offset : Nat} {state : σ} (hvalid : valid state)
    (hreadable : Readable captured reach offset) (hroom : captured.length - offset < room) :
    walkUpTo checked cut captured room state offset =
      .ok (scan step cut (view offset state) (captured.drop offset)) := by
  -- The room exceeds what is left of the bytes, and every item takes some of them.
  induction room generalizing state offset with
  | zero => omega
  | succ room ih =>
      obtain ⟨move, hmove, hkeeps, hseen⟩ := h state offset hvalid hreadable
      obtain ⟨hcaptured, hoffset⟩ := hreadable
      rw [walkUpTo, hmove, ok_bind]
      cases move with
      | stop verdict => rw [scan_of_stop cut hstep hseen]
      | take item size next =>
          obtain ⟨hsize, hnext⟩ := hkeeps
          have hadvance := hstep (view offset state) (captured.drop offset)
          rw [hseen, seen, Move.advances_take] at hadvance
          have hhas : offset + size ≤ captured.length ↔
              Bytes.has (captured.drop offset) size = true := by
            rw [Bytes.has_eq_true_iff, List.length_drop]
            omega
          dsimp only
          rw [word_eq (by omega), ok_bind, scan_eq cut hstep, hseen, seen]
          dsimp only
          by_cases hwithin : offset + size ≤ captured.length
          · rw [if_pos hwithin, if_pos (hhas.mp hwithin),
              ih hnext ⟨hcaptured, by omega⟩ (by omega), ok_bind, List.drop_drop]
          · rw [if_neg hwithin, if_neg (mt hhas.mpr hwithin)]

/-- A walk by checked steps does not fault and finds what the scan finds. -/
theorem walk_eq (cut : ω) (hstep : Advances step)
    (h : Follows captured reach checked step view valid) (hreach : reach < 2 ^ 16) {offset : Nat}
    {state : σ} (hvalid : valid state) (hreadable : Readable captured reach offset) :
    walk checked cut captured state offset =
      .ok (scan step cut (view offset state) (captured.drop offset)) :=
  walkUpTo_eq cut hstep h hreach hvalid hreadable (by omega)

end Walks

end Checked

end Dissection

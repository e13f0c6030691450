import Dissection.Bytes.Basic

/-!
Items laid end to end. A scan reads one item at the front of the bytes, goes on
behind it, and ends where its step says so or at the first item that runs past
the end. `scan_eq` states this as one equation, without the bound on the number
of items by which the scan is defined.
-/

namespace Dissection

/-- One move of a scan: an item that takes `size` bytes, with the state in which
the scan goes on behind it, or the end. -/
inductive Move (σ α ω : Type) where
  | take (item : α) (size : Nat) (next : σ)
  | stop (verdict : ω)

namespace Move

variable {σ α ω : Type}

/-- The move ends the scan or takes at least one byte. -/
def Advances : Move σ α ω → Prop
  | .take _ size _ => 0 < size
  | .stop _ => True

@[simp] theorem advances_take (item : α) (size : Nat) (next : σ) :
    (take item size next : Move σ α ω).Advances ↔ 0 < size :=
  Iff.rfl

@[simp] theorem advances_stop (verdict : ω) : (stop verdict : Move σ α ω).Advances :=
  trivial

end Move

/-- The items found, in order, and how the scan ended. -/
structure Scanned (α ω : Type) where
  items : List α
  verdict : ω
  deriving DecidableEq, Repr

namespace Scanned

def cons {α ω : Type} (item : α) (rest : Scanned α ω) : Scanned α ω :=
  ⟨item :: rest.items, rest.verdict⟩

@[simp] theorem cons_items {α ω : Type} (item : α) (rest : Scanned α ω) :
    (rest.cons item).items = item :: rest.items :=
  rfl

@[simp] theorem cons_verdict {α ω : Type} (item : α) (rest : Scanned α ω) :
    (rest.cons item).verdict = rest.verdict :=
  rfl

end Scanned

/-- The count of bytes that items take, laid end to end. -/
def total {α : Type} (size : α → Nat) : List α → Nat
  | [] => 0
  | item :: rest => size item + total size rest

@[simp] theorem total_nil {α : Type} (size : α → Nat) : total size [] = 0 :=
  rfl

@[simp] theorem total_cons {α : Type} (size : α → Nat) (item : α) (rest : List α) :
    total size (item :: rest) = size item + total size rest :=
  rfl

variable {σ α ω : Type}

def scanUpTo (step : σ → Bytes → Move σ α ω) (cut : ω) :
    Nat → σ → Bytes → Scanned α ω
  | 0, _, _ => ⟨[], cut⟩
  | room + 1, state, bytes =>
      match step state bytes with
      | .stop verdict => ⟨[], verdict⟩
      | .take item size next =>
          if Bytes.has bytes size then
            (scanUpTo step cut room next (bytes.drop size)).cons item
          else
            ⟨[item], cut⟩

/-- Scans to the end. An item that runs past the end of the bytes is the last
one, and the scan ends with the verdict `cut`. -/
def scan (step : σ → Bytes → Move σ α ω) (cut : ω) (state : σ)
    (bytes : Bytes) : Scanned α ω :=
  scanUpTo step cut (bytes.length + 1) state bytes

/-- Every move of a scan takes at least one byte, until the scan ends. -/
def Advances (step : σ → Bytes → Move σ α ω) : Prop :=
  ∀ state bytes, (step state bytes).Advances

theorem scanUpTo_eq_of_length_lt {step : σ → Bytes → Move σ α ω} (cut : ω)
    (hstep : Advances step) {few many : Nat} {state : σ} {bytes : Bytes}
    (hfew : bytes.length < few) (hmany : bytes.length < many) :
    scanUpTo step cut few state bytes = scanUpTo step cut many state bytes := by
  induction few generalizing many state bytes with
  | zero => omega
  | succ few ih =>
      cases many with
      | zero => omega
      | succ many =>
          simp only [scanUpTo]
          split
          · rfl
          · rename_i item size next hmove
            have hsize := hstep state bytes
            rw [hmove, Move.advances_take] at hsize
            split
            · rename_i hhas
              rw [Bytes.has_eq_true_iff] at hhas
              rw [ih]
              · simp only [List.length_drop]
                omega
              · simp only [List.length_drop]
                omega
            · rfl

theorem scan_eq {step : σ → Bytes → Move σ α ω} (cut : ω)
    (hstep : Advances step) (state : σ) (bytes : Bytes) :
    scan step cut state bytes =
      match step state bytes with
      | .stop verdict => ⟨[], verdict⟩
      | .take item size next =>
          if Bytes.has bytes size then
            (scan step cut next (bytes.drop size)).cons item
          else
            ⟨[item], cut⟩ := by
  rw [scan, scanUpTo]
  split
  · rfl
  · rename_i item size next hmove
    have hsize := hstep state bytes
    rw [hmove, Move.advances_take] at hsize
    split
    · rename_i hhas
      rw [Bytes.has_eq_true_iff] at hhas
      have hdrop : (bytes.drop size).length < bytes.length := by
        simp only [List.length_drop]
        omega
      rw [scan, scanUpTo_eq_of_length_lt cut hstep hdrop (Nat.lt_succ_self _)]
    · rfl

end Dissection

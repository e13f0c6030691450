import Dissection.Bytes.Scan

namespace Dissection

theorem total_append {α : Type} (size : α → Nat) (items behind : List α) :
    total size (items ++ behind) = total size items + total size behind := by
  induction items with
  | nil => simp
  | cons item rest ih => simp [ih, Nat.add_assoc]

variable {σ α ω : Type} {step : σ → Bytes → Move σ α ω} {cut : ω}

/-- The moves of a scan from a state and bytes on, with what it finds. -/
inductive Scans (step : σ → Bytes → Move σ α ω) (cut : ω) :
    σ → Bytes → Scanned α ω → Prop
  | stop {state : σ} {bytes : Bytes} {verdict : ω}
      (hmove : step state bytes = .stop verdict) : Scans step cut state bytes ⟨[], verdict⟩
  | last {state next : σ} {bytes : Bytes} {item : α} {size : Nat}
      (hmove : step state bytes = .take item size next) (hsize : bytes.length < size) :
      Scans step cut state bytes ⟨[item], cut⟩
  | take {state next : σ} {bytes : Bytes} {item : α} {size : Nat} {behind : Scanned α ω}
      (hmove : step state bytes = .take item size next) (hsize : size ≤ bytes.length)
      (hbehind : Scans step cut next (bytes.drop size) behind) :
      Scans step cut state bytes (behind.cons item)

theorem scans_scan (hstep : Advances step) (state : σ) (bytes : Bytes) :
    Scans step cut state bytes (scan step cut state bytes) := by
  -- The bytes left over grow shorter with every move that goes on.
  induction hlength : bytes.length using Nat.strongRecOn generalizing state bytes with
  | ind length ih =>
      rw [scan_eq cut hstep]
      split
      · rename_i hmove
        exact .stop hmove
      · rename_i item size next hmove
        have hadvance := hstep state bytes
        rw [hmove, Move.advances_take] at hadvance
        split
        · rename_i hhas
          rw [Bytes.has_eq_true_iff] at hhas
          refine .take hmove hhas (ih _ ?_ _ _ rfl)
          simp only [List.length_drop]
          omega
        · rename_i hhas
          rw [Bytes.has_eq_true_iff, Nat.not_le] at hhas
          exact .last hmove hhas

theorem scan_of_take (cut : ω) (hstep : Advances step) {state next : σ} {bytes : Bytes} {item : α}
    {size : Nat} (hmove : step state bytes = .take item size next)
    (hsize : size ≤ bytes.length) :
    scan step cut state bytes = (scan step cut next (bytes.drop size)).cons item := by
  rw [scan_eq cut hstep, hmove]
  simp [(Bytes.has_eq_true_iff bytes size).mpr hsize]

theorem scan_of_stop (cut : ω) (hstep : Advances step) {state : σ} {bytes : Bytes} {verdict : ω}
    (hmove : step state bytes = .stop verdict) :
    scan step cut state bytes = ⟨[], verdict⟩ := by
  rw [scan_eq cut hstep, hmove]

theorem scan_of_last (cut : ω) (hstep : Advances step) {state next : σ} {bytes : Bytes} {item : α}
    {size : Nat} (hmove : step state bytes = .take item size next) (hsize : bytes.length < size) :
    scan step cut state bytes = ⟨[item], cut⟩ := by
  have hcut : ¬Bytes.has bytes size = true := by
    rw [Bytes.has_eq_true_iff]
    omega
  rw [scan_eq cut hstep, hmove]
  dsimp only
  rw [if_neg hcut]

theorem Scans.eq_scan (hstep : Advances step) {state : σ} {bytes : Bytes} {found : Scanned α ω}
    (h : Scans step cut state bytes found) : scan step cut state bytes = found := by
  induction h with
  | stop hmove => exact scan_of_stop cut hstep hmove
  | last hmove hsize => exact scan_of_last cut hstep hmove hsize
  | take hmove hsize _ ih => rw [scan_of_take cut hstep hmove hsize, ih]

theorem Scans.forall_items_of_le {property : α → Prop} {bound : Nat}
    (hmove : ∀ state (bytes : Bytes) item size next, bytes.length ≤ bound →
      step state bytes = .take item size next → property item) {state : σ} {bytes : Bytes}
    {found : Scanned α ω} (h : Scans step cut state bytes found) (hbound : bytes.length ≤ bound) :
    ∀ item ∈ found.items, property item := by
  induction h with
  | stop _ => simp
  | last htake _ => simpa using hmove _ _ _ _ _ hbound htake
  | take htake _ _ ih =>
      rw [Scanned.cons_items, List.forall_mem_cons]
      refine ⟨hmove _ _ _ _ _ hbound htake, ih ?_⟩
      rw [List.length_drop]
      omega

theorem Scans.forall_items {property : α → Prop}
    (hmove : ∀ state bytes item size next, step state bytes = .take item size next →
      property item) {state : σ} {bytes : Bytes} {found : Scanned α ω}
    (h : Scans step cut state bytes found) : ∀ item ∈ found.items, property item :=
  h.forall_items_of_le (fun state bytes item size next _ => hmove state bytes item size next)
    (Nat.le_refl _)

theorem Scans.total_le {size : α → Nat} {bound : Nat}
    (hmove : ∀ state bytes item taken next, step state bytes = .take item taken next →
      size item = taken ∧ taken ≤ bound) {state : σ} {bytes : Bytes} {found : Scanned α ω}
    (h : Scans step cut state bytes found) :
    total size found.items ≤ bytes.length + bound := by
  induction h with
  | stop _ => exact Nat.zero_le _
  | last htake _ =>
      obtain ⟨hsize, hbound⟩ := hmove _ _ _ _ _ htake
      simp only [total_cons, total_nil]
      omega
  | take htake hwithin _ ih =>
      obtain ⟨hsize, _⟩ := hmove _ _ _ _ _ htake
      rw [List.length_drop] at ih
      rw [Scanned.cons_items, total_cons]
      omega

end Dissection

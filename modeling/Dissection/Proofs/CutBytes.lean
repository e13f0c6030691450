import Dissection.Frame.Transport
import Dissection.Proofs.Scanning

/-!
Bytes cut off behind some of them. What is read before the cut is read in all of
the bytes. A scan of bytes cut off finds the first of the items that it finds in all
of them, if each of its moves is either the same or the end (`Cautious`).
-/

namespace Dissection

open Bytes

namespace Bytes

variable {bytes : Bytes} {count offset value : Nat}

theorem u8?_take (bytes : Bytes) (h : offset < count) :
    u8? (bytes.take count) offset = u8? bytes offset := by
  simp [u8?, h]

theorem u8?_take_eq_none (bytes : Bytes) (h : count ≤ offset) :
    u8? (bytes.take count) offset = none := by
  rw [u8?, List.getElem?_eq_none]
  · rfl
  · rw [List.length_take]
    omega

theorem u8?_of_take (h : u8? (bytes.take count) offset = some value) :
    u8? bytes offset = some value := by
  have hlength := (u8?_isSome_iff (bytes.take count) offset).mp (by rw [h]; rfl)
  rw [List.length_take] at hlength
  rwa [u8?_take bytes (by omega)] at h

theorem u16?_take (bytes : Bytes) (h : offset + 1 < count) :
    u16? (bytes.take count) offset = u16? bytes offset := by
  rw [u16?, u16?, u8?_take bytes (by omega), u8?_take bytes h]

theorem u16?_of_take (h : u16? (bytes.take count) offset = some value) :
    u16? bytes offset = some value := by
  simp only [u16?, Option.bind_eq_bind, Option.bind_eq_some_iff, Option.some.injEq] at h ⊢
  obtain ⟨high, hhigh, low, hlow, rfl⟩ := h
  exact ⟨high, u8?_of_take hhigh, low, u8?_of_take hlow, rfl⟩

theorem u32?_of_take (h : u32? (bytes.take count) offset = some value) :
    u32? bytes offset = some value := by
  simp only [u32?, Option.bind_eq_bind, Option.bind_eq_some_iff, Option.some.injEq] at h ⊢
  obtain ⟨high, hhigh, low, hlow, rfl⟩ := h
  exact ⟨high, u16?_of_take hhigh, low, u16?_of_take hlow, rfl⟩

theorem has_of_take {size : Nat} (h : has (bytes.take count) size = true) :
    has bytes size = true := by
  rw [has_eq_true_iff, List.length_take] at h
  rw [has_eq_true_iff]
  omega

end Bytes

variable {σ α ω : Type} {step : σ → Bytes → Move σ α ω} {cut : ω}

/-- A step that on bytes cut off either does what it does on all of them or ends. -/
def Cautious (step : σ → Bytes → Move σ α ω) : Prop :=
  ∀ state bytes count, step state (bytes.take count) = step state bytes ∨
    ∃ verdict, step state (bytes.take count) = .stop verdict

theorem scan_items_of_take (cut : ω) (hstep : Advances step) {state next : σ} {bytes : Bytes}
    {item : α} {size : Nat} (hmove : step state bytes = .take item size next) :
    ∃ behind, (scan step cut state bytes).items = item :: behind := by
  rw [scan_eq cut hstep, hmove]
  dsimp only
  split
  · exact ⟨_, rfl⟩
  · exact ⟨[], rfl⟩

/-- A cautious scan of bytes cut off finds the first of the items. -/
theorem Cautious.items_front (cut : ω) (hstep : Advances step) (h : Cautious step) (state : σ)
    (bytes : Bytes) (count : Nat) :
    (scan step cut state (bytes.take count)).items <+: (scan step cut state bytes).items := by
  have hscans : Scans step cut state (bytes.take count) _ := scans_scan hstep _ _
  generalize hshort : bytes.take count = short at hscans ⊢
  generalize scan step cut state short = found at hscans ⊢
  induction hscans generalizing bytes count with
  | stop _ => exact List.nil_prefix
  | last hmove _ =>
      subst hshort
      rcases h _ bytes count with heq | ⟨verdict, hstop⟩
      · rw [hmove] at heq
        obtain ⟨behind, hbehind⟩ := scan_items_of_take cut hstep heq.symm
        rw [hbehind]
        exact ⟨behind, rfl⟩
      · rw [hmove] at hstop
        cases hstop
  | @take state next short item size found hmove hsize _ ih =>
      subst hshort
      rcases h _ bytes count with heq | ⟨verdict, hstop⟩
      · rw [hmove] at heq
        rw [List.length_take] at hsize
        rw [scan_of_take cut hstep heq.symm (by omega)]
        rw [Scanned.cons_items, Scanned.cons_items, List.cons_prefix_cons]
        exact ⟨rfl, ih _ _ (List.drop_take).symm⟩
      · rw [hmove] at hstop
        cases hstop

/-- A verdict that bytes cut off allow only where all of them do. -/
def Conclusive (step : σ → Bytes → Move σ α ω) (verdict : ω) : Prop :=
  ∀ state bytes count, step state (bytes.take count) = .stop verdict →
    step state bytes = .stop verdict

theorem Cautious.scan_eq_of_conclusive (hstep : Advances step) (h : Cautious step)
    {verdict : ω} (hconclusive : Conclusive step verdict) (hcut : verdict ≠ cut) {state : σ}
    {bytes : Bytes} {count : Nat}
    (hverdict : (scan step cut state (bytes.take count)).verdict = verdict) :
    scan step cut state bytes = scan step cut state (bytes.take count) := by
  have hscans : Scans step cut state (bytes.take count) _ := scans_scan hstep _ _
  generalize hshort : bytes.take count = short at hscans hverdict ⊢
  generalize scan step cut state short = found at hscans hverdict ⊢
  induction hscans generalizing bytes count with
  | stop hmove =>
      subst hshort hverdict
      exact scan_of_stop cut hstep (hconclusive _ _ _ hmove)
  | last _ _ => exact absurd hverdict.symm hcut
  | @take state next short item size found hmove hsize _ ih =>
      subst hshort
      rcases h state bytes count with heq | ⟨verdict, hstop⟩
      · rw [hmove] at heq
        rw [List.length_take] at hsize
        rw [scan_of_take cut hstep heq.symm (by omega), ih (List.drop_take).symm hverdict]
      · rw [hmove] at hstop
        cases hstop

/-- A step within a region that reads a kind and, unless the kind is a short one, the
byte behind it. -/
def kindStep (isShort : Nat → Bool) (move : Nat → Nat → Option Nat → Move Nat α (Option Note))
    (region : Nat) (rest : Bytes) : Move Nat α (Option Note) :=
  if region = 0 then .stop none
  else
    match u8? rest 0 with
    | none => .stop none
    | some kind =>
        if isShort kind then move region kind none
        else
          match u8? rest 1 with
          | none => .stop none
          | some length => move region kind (some length)

theorem cautious_kindStep (isShort : Nat → Bool)
    (move : Nat → Nat → Option Nat → Move Nat α (Option Note)) :
    Cautious (kindStep isShort move) := by
  intro region bytes count
  unfold kindStep
  by_cases hregion : region = 0
  · exact .inl (by rw [if_pos hregion, if_pos hregion])
  · rw [if_neg hregion, if_neg hregion]
    cases hkind : u8? (bytes.take count) 0 with
    | none => exact .inr ⟨none, rfl⟩
    | some kind =>
        rw [u8?_of_take hkind]
        by_cases hshort : isShort kind = true
        · exact .inl (by simp only [if_pos hshort])
        · simp only [if_neg hshort]
          cases hlength : u8? (bytes.take count) 1 with
          | none => exact .inr ⟨none, rfl⟩
          | some length =>
              rw [u8?_of_take hlength]
              exact .inl rfl

theorem optionStep_eq (recognize : Nat → Option ProtocolId) :
    optionStep recognize = kindStep (fun kind => kind ≤ 1) fun region kind length =>
      if 1 < kind ∧ length.getD 1 < 2 ∨ region < length.getD 1 then
        .stop (some (.malformedOption kind (length.getD 1)))
      else
        .take (.ofId? (length.getD 1) (recognize kind) (.skippedOption kind)) (length.getD 1)
          (if kind = 0 then 0 else region - length.getD 1) := by
  funext region rest
  unfold optionStep kindStep
  congr 1
  cases u8? rest 0 with
  | none => rfl
  | some kind =>
      by_cases hshort : kind ≤ 1
      · simp [hshort]
      · cases u8? rest 1 <;> simp [hshort]

theorem hopByHopStep_eq :
    hopByHopStep = kindStep (fun kind => kind = 0) fun region kind length =>
      if region < (length.map (2 + ·)).getD 1 then .stop (some (.overrunningHopByHop kind))
      else
        .take (.ofId? ((length.map (2 + ·)).getD 1)
            ((HopByHopOption.ofCode? kind).map HopByHopOption.id) (.skippedHopByHop kind))
          ((length.map (2 + ·)).getD 1) (region - (length.map (2 + ·)).getD 1) := by
  funext region rest
  unfold hopByHopStep kindStep
  congr 1
  cases u8? rest 0 with
  | none => rfl
  | some kind =>
      by_cases hzero : kind = 0
      · simp [hzero]
      · cases u8? rest 1 <;> simp [hzero]

theorem cautious_optionStep (recognize : Nat → Option ProtocolId) :
    Cautious (optionStep recognize) := by
  rw [optionStep_eq]
  exact cautious_kindStep _ _

theorem cautious_hopByHopStep : Cautious hopByHopStep := by
  rw [hopByHopStep_eq]
  exact cautious_kindStep _ _

theorem cautious_ndStep : Cautious ndStep := by
  intro state bytes count
  unfold ndStep
  cases hkind : u8? (bytes.take count) 0 with
  | none => exact .inr ⟨none, rfl⟩
  | some kind =>
      cases hunits : u8? (bytes.take count) 1 with
      | none => exact .inr ⟨none, rfl⟩
      | some units =>
          rw [u8?_of_take hkind, u8?_of_take hunits]
          dsimp only
          by_cases hzero : units = 0
          · exact .inl (by rw [if_pos hzero, if_pos hzero])
          · rw [if_neg hzero, if_neg hzero]
            cases NdOption.ofCode? kind with
            | some option => exact .inl rfl
            | none =>
                by_cases hhas : has (bytes.take count) (units * 8) = true
                · exact .inl (by simp only [if_pos hhas, if_pos (has_of_take hhas)])
                · exact .inr ⟨none, by simp only [if_neg hhas]⟩

theorem cautious_addressRecordStep : Cautious addressRecordStep := by
  intro announced bytes count
  cases announced with
  | zero => exact .inl rfl
  | succ announced =>
      unfold addressRecordStep
      dsimp only
      split
      · rename_i kind words sources hkind hwords hsources
        rw [u8?_of_take hkind, u8?_of_take hwords, u16?_of_take hsources]
        exact .inl rfl
      · exact .inr ⟨(), rfl⟩

theorem cautious_sourceRouteStep : Cautious sourceRouteStep := by
  intro finished bytes count
  unfold sourceRouteStep
  by_cases hfinished : finished = true
  · exact .inl (by rw [if_pos hfinished, if_pos hfinished])
  · rw [if_neg hfinished, if_neg hfinished]
    split
    · rename_i family length hfamily hlength
      rw [u16?_of_take hfamily, u8?_of_take hlength]
      exact .inl rfl
    · exact .inr ⟨false, rfl⟩

theorem conclusive_sourceRouteStep : Conclusive sourceRouteStep true := by
  intro finished bytes count h
  unfold sourceRouteStep at h ⊢
  by_cases hfinished : finished = true
  · rw [if_pos hfinished]
  · rw [if_neg hfinished] at h
    split at h <;> cases h

theorem sourceRouteLength?_of_take {bytes : Bytes} {count length : Nat}
    (h : sourceRouteLength? (bytes.take count) = some length) :
    sourceRouteLength? bytes = some length := by
  unfold sourceRouteLength? at h ⊢
  dsimp only at h ⊢
  split at h
  · rename_i hverdict
    rwa [cautious_sourceRouteStep.scan_eq_of_conclusive sourceRouteStep_advances
      conclusive_sourceRouteStep (by decide) hverdict, if_pos hverdict]
  · cases h

theorem greLength?_of_take {flags : Nat} {bytes : Bytes} {count length : Nat}
    (h : greLength? flags (bytes.take count) = some length) :
    greLength? flags bytes = some length := by
  unfold greLength? at h ⊢
  by_cases hroute : flags.testBit 14 = true
  · simp only [if_pos hroute] at h ⊢
    obtain ⟨route, hlength, rfl⟩ := Option.map_eq_some_iff.mp h
    rw [List.drop_take] at hlength
    rw [sourceRouteLength?_of_take hlength]
    rfl
  · simpa only [if_neg hroute] using h

/-- A step that within a region looks at nothing else, except to end. -/
structure Confined (step : Nat → Bytes → Move Nat α ω) : Prop where
  size_le : ∀ {region size next : Nat} {bytes : Bytes} {item : α},
    step region bytes = .take item size next → size + next ≤ region
  eq_or_stop : ∀ {region count : Nat} (bytes : Bytes), region ≤ count →
    step region (bytes.take count) = step region bytes ∨
      ∃ verdict other, step region (bytes.take count) = .stop verdict ∧
        step region bytes = .stop other

theorem kindStep_eq_or_stop {isShort : Nat → Bool}
    {move : Nat → Nat → Option Nat → Move Nat α (Option Note)}
    (hlong : ∀ kind length, isShort kind = false →
      ∃ verdict, move 1 kind (some length) = .stop verdict)
    {region count : Nat} (bytes : Bytes) (hcount : region ≤ count) :
    kindStep isShort move region (bytes.take count) = kindStep isShort move region bytes ∨
      ∃ verdict other, kindStep isShort move region (bytes.take count) = .stop verdict ∧
        kindStep isShort move region bytes = .stop other := by
  unfold kindStep
  by_cases hregion : region = 0
  · exact .inl (by rw [if_pos hregion, if_pos hregion])
  · rw [if_neg hregion, if_neg hregion, u8?_take bytes (by omega : 0 < count)]
    cases u8? bytes 0 with
    | none => exact .inl rfl
    | some kind =>
        by_cases hshort : isShort kind = true
        · exact .inl (by simp only [if_pos hshort])
        · simp only [if_neg hshort]
          rcases Nat.lt_or_ge 1 count with hinside | hbeyond
          · exact .inl (by rw [u8?_take bytes hinside])
          · obtain rfl : count = 1 := by omega
            obtain rfl : region = 1 := by omega
            refine .inr ⟨none, ?_⟩
            rw [u8?_take_eq_none bytes (Nat.le_refl 1)]
            cases u8? bytes 1 with
            | none => exact ⟨none, rfl, rfl⟩
            | some length =>
                obtain ⟨verdict, hstop⟩ := hlong kind length (Bool.not_eq_true _ ▸ hshort)
                exact ⟨verdict, rfl, hstop⟩

theorem Confined.items_eq {step : Nat → Bytes → Move Nat α ω} (hstep : Advances step)
    (h : Confined step) {region count : Nat} (bytes : Bytes) (hregion : region ≤ count) :
    (scan step cut region (bytes.take count)).items = (scan step cut region bytes).items := by
  have hscans : Scans step cut region (bytes.take count) _ := scans_scan hstep _ _
  generalize hshort : bytes.take count = short at hscans ⊢
  generalize scan step cut region short = found at hscans ⊢
  induction hscans generalizing bytes count with
  | stop hmove =>
      subst hshort
      rcases h.eq_or_stop bytes hregion with heq | ⟨_, _, _, hstop⟩
      · rw [scan_of_stop cut hstep (heq.symm.trans hmove)]
      · rw [scan_of_stop cut hstep hstop]
  | last hmove hsize =>
      subst hshort
      rcases h.eq_or_stop bytes hregion with heq | ⟨_, _, hstop, _⟩
      · have hwithin := h.size_le hmove
        rw [List.length_take] at hsize
        rw [scan_eq cut hstep, ← heq, hmove]
        dsimp only
        rw [if_neg]
        rw [Bytes.has_eq_true_iff]
        omega
      · rw [hmove] at hstop
        cases hstop
  | @take region next short item size found hmove hsize _ ih =>
      subst hshort
      rcases h.eq_or_stop bytes hregion with heq | ⟨_, _, hstop, _⟩
      · have hwithin := h.size_le hmove
        rw [List.length_take] at hsize
        rw [scan_of_take cut hstep (heq.symm.trans hmove) (by omega), Scanned.cons_items,
          Scanned.cons_items, ih _ (by omega) (List.drop_take).symm]
      · rw [hmove] at hstop
        cases hstop

end Dissection

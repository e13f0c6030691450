import Dissection.Proofs.Checked.Arithmetic
import Dissection.Proofs.LayerShape

namespace Dissection

namespace Checked

/-- One option before the end of its header, of the length that its kind has at that offset. -/
def regionStep (captured : Bytes) (length? : Nat → Nat → Checked (Option Nat))
    (move : Nat → Nat → Nat → Nat → Move Nat Entry (Option Note)) (stop offset : Nat) :
    Checked (Move Nat Entry (Option Note)) :=
  if stop ≤ offset then .ok (.stop none)
  else do
    match ← u8At captured offset 0 with
    | none => .ok (.stop none)
    | some kind =>
        match ← length? offset kind with
        | none => .ok (.stop none)
        | some length =>
            let behind ← word (offset + length)
            .ok (move stop kind length behind)

def optionLength (captured : Bytes) (offset kind : Nat) : Checked (Option Nat) :=
  if kind ≤ 1 then .ok (some 1) else u8At captured offset 1

/-- The move to an IPv4 or TCP option. Behind the option that ends the list the walk ends too. -/
def optionMove (recognize : Nat → Option ProtocolId) (stop kind length behind : Nat) :
    Move Nat Entry (Option Note) :=
  if 1 < kind ∧ length < 2 ∨ stop < behind then .stop (some (.malformedOption kind length))
  else
    .take (.ofId? length (recognize kind) (.skippedOption kind)) length
      (if kind = 0 then behind else stop)

def optionEntries (captured : Bytes) (recognize : Nat → Option ProtocolId) (start stop : Nat) :
    Checked (Scanned Entry (Option Note)) :=
  walk (regionStep captured (optionLength captured) (optionMove recognize)) none captured stop start

def hopByHopLength (captured : Bytes) (offset kind : Nat) : Checked (Option Nat) :=
  if kind = 0 then .ok (some 1)
  else do
    match ← u8At captured offset 1 with
    | none => .ok none
    | some count =>
        let length ← word (2 + count)
        .ok (some length)

def hopByHopMove (stop kind length behind : Nat) : Move Nat Entry (Option Note) :=
  if stop < behind then .stop (some (.overrunningHopByHop kind))
  else
    .take
      (.ofId? length ((HopByHopOption.ofCode? kind).map HopByHopOption.id) (.skippedHopByHop kind))
      length stop

def hopByHopEntries (captured : Bytes) (start stop : Nat) :
    Checked (Scanned Entry (Option Note)) :=
  walk (regionStep captured (hopByHopLength captured) hopByHopMove) none captured stop start

def ndStep (captured : Bytes) (_ : Unit) (offset : Nat) :
    Checked (Move Unit Entry (Option Note)) := do
  match ← u8At captured offset 0, ← u8At captured offset 1 with
  | some kind, some units =>
      if units = 0 then .ok (.stop (some (.emptyNdOption kind)))
      else
        let length ← word (units * 8)
        match NdOption.ofCode? kind with
        | some option => .ok (.take ⟨length, .known option.id⟩ length ())
        | none =>
            if hasAt captured offset length then
              .ok (.take ⟨length, .skipped (.skippedNdOption kind)⟩ length ())
            else .ok (.stop none)
  | _, _ => .ok (.stop none)

def ndEntries (captured : Bytes) (start : Nat) : Checked (Scanned Entry (Option Note)) :=
  walk (ndStep captured) none captured () start

/-- What is left before an end. A scan keeps this where a walk keeps the end itself. -/
def region (offset stop : Nat) : Nat :=
  stop - offset

variable {captured : Bytes} {offset start stop : Nat}

theorem optionLength_eq (h : Readable captured 20 offset) (kind : Nat) :
    optionLength captured offset kind =
      .ok (if kind ≤ 1 then some 1 else Bytes.u8? (captured.drop offset) 1) := by
  unfold optionLength
  split
  · rfl
  · exact u8At_eq h (by decide)

theorem hopByHopLength_eq (h : Readable captured 42 offset) (kind : Nat) :
    hopByHopLength captured offset kind =
      .ok (if kind = 0 then some 1 else (Bytes.u8? (captured.drop offset) 1).map (2 + ·)) := by
  unfold hopByHopLength
  split
  · rfl
  · rw [u8At_eq h (by decide), ok_bind]
    cases hcount : Bytes.u8? (captured.drop offset) 1 with
    | none => rfl
    | some count =>
        have hlt := Bytes.u8?_lt hcount
        dsimp only
        rw [word_eq (by omega)]
        rfl

theorem regionStep_follows {reach : Nat} {length? : Nat → Nat → Checked (Option Nat)}
    {move : Nat → Nat → Nat → Nat → Move Nat Entry (Option Note)}
    {found? : Nat → Bytes → Option Nat} {take : Nat → Nat → Nat → Move Nat Entry (Option Note)}
    {step : Nat → Bytes → Move Nat Entry (Option Note)} (hreach : reach < 2 ^ 16)
    (hstep : ∀ left rest, step left rest =
      if left = 0 then .stop none
      else match Bytes.u8? rest 0 with
        | none => .stop none
        | some kind => match found? kind rest with
          | none => .stop none
          | some length => take left kind length)
    (hlength : ∀ offset kind, Readable captured reach offset →
      length? offset kind = .ok (found? kind (captured.drop offset)))
    (hlt : ∀ {kind length : Nat} {rest : Bytes}, found? kind rest = some length → length < 2 ^ 16)
    (htake : ∀ {stop offset : Nat} (kind length : Nat), offset < stop → length < 2 ^ 16 →
      Keeps (fun _ => True) (move stop kind length (offset + length)) ∧
        take (stop - offset) kind length =
          seen region offset (move stop kind length (offset + length))) :
    Follows captured reach (regionStep captured length? move) step region fun _ => True := by
  intro stop offset _ hreadable
  obtain ⟨hcaptured, hoffset⟩ := id hreadable
  rw [hstep, region, regionStep]
  by_cases hend : stop ≤ offset
  · exact ⟨.stop none, if_pos hend, trivial, if_pos (by omega)⟩
  · rw [if_neg hend, if_neg (by omega), u8At_eq hreadable hreach, ok_bind]
    cases Bytes.u8? (captured.drop offset) 0 with
    | none => exact ⟨.stop none, rfl, trivial, rfl⟩
    | some kind =>
        dsimp only
        rw [hlength _ _ hreadable, ok_bind]
        cases hfound : found? kind (captured.drop offset) with
        | none => exact ⟨.stop none, rfl, trivial, rfl⟩
        | some length =>
            have hshort := hlt hfound
            obtain ⟨hkeeps, hseen⟩ := htake kind length (Nat.not_le.mp hend) hshort
            dsimp only
            rw [word_eq (by omega), ok_bind]
            exact ⟨_, rfl, hkeeps, hseen⟩

theorem optionStep_follows (captured : Bytes) (recognize : Nat → Option ProtocolId) :
    Follows captured 20 (regionStep captured (optionLength captured) (optionMove recognize))
      (Dissection.optionStep recognize) region fun _ => True := by
  refine regionStep_follows (by decide) (fun _ _ => rfl)
    (fun _ kind h => optionLength_eq h kind) ?_ ?_
  · intro kind length rest hlength
    split at hlength
    · cases hlength
      decide
    · exact (Bytes.u8?_lt hlength).trans (by decide)
  · intro stop offset kind length hbefore hshort
    unfold optionMove region
    by_cases hmalformed : 1 < kind ∧ length < 2 ∨ stop < offset + length
    · rw [if_pos hmalformed, if_pos (by omega)]
      exact ⟨trivial, rfl⟩
    · have hfits : ¬(1 < kind ∧ length < 2 ∨ stop - offset < length) := by omega
      rw [if_neg hmalformed, if_neg hfits, seen]
      refine ⟨⟨by omega, trivial⟩, ?_⟩
      congr 1
      split <;> omega

theorem hopByHopStep_follows (captured : Bytes) :
    Follows captured 42 (regionStep captured (hopByHopLength captured) hopByHopMove)
      Dissection.hopByHopStep region fun _ => True := by
  refine regionStep_follows (by decide) (fun _ _ => rfl)
    (fun _ kind h => hopByHopLength_eq h kind) ?_ ?_
  · intro kind length rest hlength
    split at hlength
    · cases hlength
      decide
    · obtain ⟨count, hcount, rfl⟩ := Option.map_eq_some_iff.mp hlength
      have := Bytes.u8?_lt hcount
      omega
  · intro stop offset kind length hbefore hshort
    unfold hopByHopMove region
    by_cases hoverrun : stop < offset + length
    · rw [if_pos hoverrun, if_pos (by omega)]
      exact ⟨trivial, rfl⟩
    · rw [if_neg hoverrun, if_neg (by omega), seen]
      refine ⟨⟨by omega, trivial⟩, ?_⟩
      congr 1
      omega

theorem ndStep_eq (h : Readable captured 24 offset) :
    ndStep captured () offset = .ok (Dissection.ndStep () (captured.drop offset)) := by
  unfold ndStep Dissection.ndStep
  simp (disch := decide) only [u8At_eq h, ok_bind]
  cases Bytes.u8? (captured.drop offset) 0 with
  | none => rfl
  | some kind =>
      cases hunits : Bytes.u8? (captured.drop offset) 1 with
      | none => rfl
      | some units =>
          have hlt := Bytes.u8?_lt hunits
          dsimp only
          split
          · rfl
          · rename_i hsome
            have hhas : hasAt captured offset (units * 8) =
                Bytes.has (captured.drop offset) (units * 8) := by
              rw [hasAt_eq h.length_lt, Bytes.hasAt, Bool.eq_iff_iff, decide_eq_true_eq,
                Bytes.has_eq_true_iff, List.length_drop]
              omega
            rw [word_eq (by omega), ok_bind, hhas]
            cases NdOption.ofCode? kind with
            | some option => rfl
            | none =>
                dsimp only
                split <;> rfl

theorem ndStep_size_lt {rest : Bytes} {entry : Entry} {size : Nat} {state next : Unit}
    (h : Dissection.ndStep state rest = .take entry size next) : size < 2048 := by
  unfold Dissection.ndStep at h
  split at h
  · rename_i hunits
    have hlt := Bytes.u8?_lt hunits
    split at h
    · cases h
    · split at h
      · cases h
        omega
      · split at h
        · cases h
          omega
        · cases h
  · cases h

theorem ndStep_follows (captured : Bytes) :
    Follows captured 24 (ndStep captured) Dissection.ndStep (fun _ state => state)
      fun _ => True := by
  refine .of_eq (fun state offset _ h => ndStep_eq h) ?_
  intro state offset _
  cases hmove : Dissection.ndStep state (captured.drop offset) with
  | stop verdict => trivial
  | take entry size next =>
      have := ndStep_size_lt hmove
      exact ⟨by omega, trivial⟩

theorem optionEntries_eq (recognize : Nat → Option ProtocolId) (h : Readable captured 20 start) :
    optionEntries captured recognize start stop =
      .ok (Dissection.optionEntries recognize (stop - start) (captured.drop start)) :=
  walk_eq none (optionStep_advances recognize) (optionStep_follows captured recognize)
    (by decide) trivial h

theorem hopByHopEntries_eq (h : Readable captured 42 start) :
    hopByHopEntries captured start stop =
      .ok (Dissection.hopByHopEntries (stop - start) (captured.drop start)) :=
  walk_eq none hopByHopStep_advances (hopByHopStep_follows captured) (by decide) trivial h

theorem ndEntries_eq (h : Readable captured 24 start) :
    ndEntries captured start = .ok (Dissection.ndEntries (captured.drop start)) :=
  walk_eq none ndStep_advances (ndStep_follows captured) (by decide) trivial h

theorem total_ndEntries_le (rest : Bytes) :
    total Entry.length (Dissection.ndEntries rest).items ≤ rest.length + 2048 := by
  refine (scans_scan ndStep_advances () rest).total_le ?_
  intro state rest entry size next hmove
  exact ⟨(ndStep_take hmove).1, Nat.le_of_lt (ndStep_size_lt hmove)⟩

end Checked

end Dissection

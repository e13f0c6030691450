import Dissection.Proofs.Checked.Options

namespace Dissection

namespace Checked

def extensionTrailer (captured : Bytes) (header : ExtensionHeader) (offset : Nat) :
    Checked (Option (Trailer × Option Nat)) :=
  match header with
  | .encapsulatingSecurityPayload => .ok (some (⟨header.id, 8, .none, none⟩, none))
  | .fragment => do
      match ← u8At captured offset 0, ← u16At captured offset 2 with
      | some next, some field =>
          let fragment := Fragment.ofIpv6 field
          .ok (some (⟨header.id, 8, .none, some fragment⟩,
            if 0 < fragment.offset then none else some next))
      | _, _ => .ok none
  | .authentication => do
      match ← u8At captured offset 0, ← u8At captured offset 1 with
      | some next, some count =>
          let length ← word ((count + 2) * 4)
          .ok (some (⟨header.id, length, .none, none⟩, some next))
      | _, _ => .ok none
  | .hopByHop => do
      match ← u8At captured offset 0, ← u8At captured offset 1 with
      | some next, some count =>
          let length ← word ((count + 1) * 8)
          let start ← word (offset + 2)
          let stop ← word (offset + length)
          let entries ← hopByHopEntries captured start stop
          .ok (some (⟨header.id, length, ⟨2, entries⟩, none⟩, some next))
      | _, _ => .ok none
  | _ => do
      match ← u8At captured offset 0, ← u8At captured offset 1 with
      | some next, some count =>
          let length ← word ((count + 1) * 8)
          .ok (some (⟨header.id, length, .none, none⟩, some next))
      | _, _ => .ok none

def extensionStep (captured : Bytes) (next : Option Nat) (offset : Nat) :
    Checked (Move (Option Nat) Trailer (Option Nat)) :=
  match next with
  | none => .ok (.stop none)
  | some code =>
      match ExtensionHeader.ofCode? code with
      | none => .ok (.stop (some code))
      | some header => do
          match ← extensionTrailer captured header offset with
          | none => .ok (.stop none)
          | some (trailer, next) => .ok (.take trailer trailer.length next)

def extensionTrailers (captured : Bytes) (next start : Nat) :
    Checked (Scanned Trailer (Option Nat)) :=
  walk (extensionStep captured) none captured (some next) start

def addressRecordStep (captured : Bytes) (count offset : Nat) :
    Checked (Move Nat Trailer Unit) :=
  match count with
  | 0 => .ok (.stop ())
  | count + 1 => do
      match ← u8At captured offset 0, ← u8At captured offset 1, ← u16At captured offset 2 with
      | some kind, some words, some sources =>
          let length ← word (20 + words * 4 + sources * 16)
          .ok (.take ⟨(AddressRecord.ofCode kind).id, length, .none, none⟩ length count)
      | _, _, _ => .ok (.stop ())

def addressRecords (captured : Bytes) (count start : Nat) : Checked (List Trailer) := do
  let found ← walk (addressRecordStep captured) () captured count start
  .ok found.items

variable {captured : Bytes} {offset start : Nat}

theorem extensionTrailer_eq (h : Readable captured 40 offset) (header : ExtensionHeader) :
    extensionTrailer captured header offset =
      .ok (Dissection.extensionTrailer header (captured.drop offset)) := by
  obtain ⟨hcaptured, hoffset⟩ := id h
  cases header with
  | encapsulatingSecurityPayload => rfl
  | fragment =>
      simp (disch := decide) only [extensionTrailer, Dissection.extensionTrailer, u8At_eq h,
        u16At_eq h, ok_bind]
      cases Bytes.u8? (captured.drop offset) 0 with
      | none => rfl
      | some next => cases Bytes.u16? (captured.drop offset) 2 <;> rfl
  | hopByHop =>
      simp (disch := decide) only [extensionTrailer, Dissection.extensionTrailer, u8At_eq h,
        ok_bind]
      cases Bytes.u8? (captured.drop offset) 0 with
      | none => rfl
      | some next =>
          cases hcount : Bytes.u8? (captured.drop offset) 1 with
          | none => rfl
          | some count =>
              have hlt := Bytes.u8?_lt hcount
              have hregion : offset + (count + 1) * 8 - (offset + 2) = (count + 1) * 8 - 2 := by
                omega
              have hstart : Readable captured 42 (offset + 2) := h.add 2
              dsimp only
              rw [word_eq (by omega), ok_bind, word_eq (by omega), ok_bind, word_eq (by omega),
                ok_bind, hopByHopEntries_eq hstart, hregion, ok_bind, ← List.drop_drop]
              rfl
  | _ =>
      simp (disch := decide) only [extensionTrailer, Dissection.extensionTrailer, u8At_eq h,
        ok_bind]
      cases Bytes.u8? (captured.drop offset) 0 with
      | none => rfl
      | some next =>
          cases hcount : Bytes.u8? (captured.drop offset) 1 with
          | none => rfl
          | some count =>
              have hlt := Bytes.u8?_lt hcount
              dsimp only
              rw [word_eq (by omega)]
              rfl

theorem addressRecordStep_eq (h : Readable captured 8 offset) (count : Nat) :
    addressRecordStep captured count offset =
      .ok (Dissection.addressRecordStep count (captured.drop offset)) := by
  cases count with
  | zero => rfl
  | succ count =>
      simp (disch := decide) only [addressRecordStep, Dissection.addressRecordStep, u8At_eq h,
        u16At_eq h, ok_bind]
      cases Bytes.u8? (captured.drop offset) 0 with
      | none => rfl
      | some kind =>
          cases hwords : Bytes.u8? (captured.drop offset) 1 with
          | none => rfl
          | some words =>
              cases hsources : Bytes.u16? (captured.drop offset) 2 with
              | none => rfl
              | some sources =>
                  have := Bytes.u8?_lt hwords
                  have := Bytes.u16?_lt hsources
                  dsimp only
                  rw [word_eq (by omega)]
                  rfl

theorem extensionTrailer_length_lt {header : ExtensionHeader} {rest : Bytes} {trailer : Trailer}
    {next : Option Nat} (h : Dissection.extensionTrailer header rest = some (trailer, next)) :
    trailer.length < 4096 := by
  cases header with
  | encapsulatingSecurityPayload =>
      cases h
      decide
  | fragment =>
      simp only [Dissection.extensionTrailer, Option.bind_eq_bind, Option.bind_eq_some_iff,
        Option.some.injEq, Prod.mk.injEq] at h
      obtain ⟨_, _, _, _, rfl, _⟩ := h
      exact show 8 < 4096 by decide
  | _ =>
      simp only [Dissection.extensionTrailer, Option.bind_eq_bind, Option.bind_eq_some_iff,
        Option.some.injEq, Prod.mk.injEq] at h
      obtain ⟨_, _, count, hcount, rfl, _⟩ := h
      have hlt := Bytes.u8?_lt hcount
      dsimp only
      omega

theorem addressRecordStep_size_lt {count next : Nat} {rest : Bytes} {trailer : Trailer}
    {size : Nat} (h : Dissection.addressRecordStep count rest = .take trailer size next) :
    size < 2 ^ 21 := by
  unfold Dissection.addressRecordStep at h
  split at h
  · cases h
  · split at h
    · rename_i hwords hsources
      have := Bytes.u8?_lt hwords
      have := Bytes.u16?_lt hsources
      cases h
      omega
    · cases h

theorem extensionStep_follows (captured : Bytes) :
    Follows captured 40 (extensionStep captured) Dissection.extensionStep (fun _ state => state)
      fun _ => True := by
  refine .of_eq ?_ ?_
  · intro state offset _ hreadable
    unfold extensionStep Dissection.extensionStep
    cases state with
    | none => rfl
    | some code =>
        dsimp only
        cases ExtensionHeader.ofCode? code with
        | none => rfl
        | some header =>
            dsimp only
            rw [extensionTrailer_eq hreadable, ok_bind]
            cases Dissection.extensionTrailer header (captured.drop offset) <;> rfl
  · intro state offset _
    cases hmove : Dissection.extensionStep state (captured.drop offset) with
    | stop verdict => trivial
    | take trailer size next =>
        obtain ⟨_, _, _, _, htrailer, rfl⟩ := extensionStep_take hmove
        have := extensionTrailer_length_lt htrailer
        exact ⟨by omega, trivial⟩

theorem addressRecordStep_follows (captured : Bytes) :
    Follows captured 8 (addressRecordStep captured) Dissection.addressRecordStep
      (fun _ state => state) fun _ => True := by
  refine .of_eq (fun count offset _ h => addressRecordStep_eq h count) ?_
  intro count offset _
  cases hmove : Dissection.addressRecordStep count (captured.drop offset) with
  | stop verdict => trivial
  | take trailer size next =>
      have := addressRecordStep_size_lt hmove
      exact ⟨by omega, trivial⟩

theorem extensionTrailers_eq (h : Readable captured 40 start) (next : Nat) :
    extensionTrailers captured next start =
      .ok (Dissection.extensionTrailers next (captured.drop start)) :=
  walk_eq none extensionStep_advances (extensionStep_follows captured) (by decide) trivial h

theorem addressRecords_eq (h : Readable captured 8 start) (count : Nat) :
    addressRecords captured count start =
      .ok (Dissection.addressRecords count (captured.drop start)) := by
  rw [addressRecords, walk_eq () addressRecordStep_advances (addressRecordStep_follows captured)
    (by decide) trivial h]
  rfl

theorem total_extensionTrailers_le (next : Nat) (rest : Bytes) :
    total Trailer.length (Dissection.extensionTrailers next rest).items ≤ rest.length + 4096 := by
  refine (scans_scan extensionStep_advances (some next) rest).total_le ?_
  intro state rest trailer size next hmove
  obtain ⟨_, _, _, _, htrailer, rfl⟩ := extensionStep_take hmove
  exact ⟨rfl, Nat.le_of_lt (extensionTrailer_length_lt htrailer)⟩

theorem total_addressRecords_le (count : Nat) (rest : Bytes) :
    total Trailer.length (Dissection.addressRecords count rest) ≤ rest.length + 2 ^ 21 := by
  refine (scans_scan addressRecordStep_advances count rest).total_le ?_
  intro count rest trailer size next hmove
  exact ⟨(addressRecordStep_take hmove).2.symm, Nat.le_of_lt (addressRecordStep_size_lt hmove)⟩

end Checked

end Dissection

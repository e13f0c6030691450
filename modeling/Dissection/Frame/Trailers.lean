import Dissection.Frame.Options

namespace Dissection

open Bytes

/-- What the last two bytes of the word behind a Fragment header's next-header
field say. -/
def Fragment.ofIpv6 (word : Nat) : Fragment :=
  ⟨word % 2 = 1, word / 8⟩

/-- An extension header at the front of the bytes, and the next-header value it
gives. An Encapsulating Security Payload header hides what follows it, and behind
a fragment other than the first there are no headers. The length of an
Authentication header counts words of four bytes less two, that of the others
words of eight bytes less one. -/
def extensionTrailer (header : ExtensionHeader) (rest : Bytes) :
    Option (Trailer × Option Nat) :=
  match header with
  | .encapsulatingSecurityPayload => some (⟨header.id, 8, .none, none⟩, none)
  | .fragment => do
      let next ← u8? rest 0
      let fragment := Fragment.ofIpv6 (← u16? rest 2)
      some (⟨header.id, 8, .none, some fragment⟩,
        if 0 < fragment.offset then none else some next)
  | .authentication => do
      let next ← u8? rest 0
      let count ← u8? rest 1
      some (⟨header.id, (count + 2) * 4, .none, none⟩, some next)
  | .hopByHop => do
      let next ← u8? rest 0
      let count ← u8? rest 1
      let length := (count + 1) * 8
      some (⟨header.id, length, ⟨2, hopByHopEntries (length - 2) (rest.drop 2)⟩, none⟩,
        some next)
  | _ => do
      let next ← u8? rest 0
      let count ← u8? rest 1
      some (⟨header.id, (count + 1) * 8, .none, none⟩, some next)

/-- One extension header of a chain, in which `next` is the next-header value
announced so far. The chain ends at a value that announces no extension header,
or without a value where what follows cannot be known. -/
def extensionStep (next : Option Nat) (rest : Bytes) :
    Move (Option Nat) Trailer (Option Nat) :=
  match next with
  | none => .stop none
  | some code =>
      match ExtensionHeader.ofCode? code with
      | none => .stop (some code)
      | some header =>
          match extensionTrailer header rest with
          | none => .stop none
          | some (trailer, next) => .take trailer trailer.length next

def extensionTrailers (next : Nat) (rest : Bytes) : Scanned Trailer (Option Nat) :=
  scan extensionStep none (some next) rest

/-- One address record, as long as `count` more were announced: a type byte, the
count of auxiliary words, the count of sources, and twenty bytes besides. -/
def addressRecordStep (count : Nat) (rest : Bytes) : Move Nat Trailer Unit :=
  match count with
  | 0 => .stop ()
  | count + 1 =>
      match u8? rest 0, u8? rest 1, u16? rest 2 with
      | some kind, some words, some sources =>
          let length := 20 + words * 4 + sources * 16
          .take ⟨(AddressRecord.ofCode kind).id, length, .none, none⟩ length count
      | _, _, _ => .stop ()

/-- The address records at the front of the bytes, of which `count` are
announced. -/
def addressRecords (count : Nat) (rest : Bytes) : List Trailer :=
  (scan addressRecordStep () count rest).items

theorem extensionTrailer_length_pos {header : ExtensionHeader} {rest : Bytes}
    {trailer : Trailer} {next : Option Nat}
    (h : extensionTrailer header rest = some (trailer, next)) : 0 < trailer.length := by
  cases header <;>
    simp only [extensionTrailer, Option.bind_eq_bind, Option.bind_eq_some_iff,
      Option.some.injEq, Prod.mk.injEq] at h <;>
    grind

theorem extensionStep_advances : Advances extensionStep := by
  intro next rest
  unfold extensionStep
  split
  · simp
  · split
    · simp
    · split
      · simp
      · rename_i htrailer
        exact extensionTrailer_length_pos htrailer

theorem addressRecordStep_advances : Advances addressRecordStep := by
  intro count rest
  cases count with
  | zero => simp [addressRecordStep]
  | succ count =>
      simp only [addressRecordStep]
      split
      · rw [Move.advances_take]
        omega
      · simp

end Dissection

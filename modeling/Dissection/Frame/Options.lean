import Dissection.Frame.Layer
import Dissection.Protocol.Option

namespace Dissection

open Bytes

/-- An entry with the identifier of its kind, or skipped with a note. -/
def Entry.ofId? (length : Nat) (id? : Option ProtocolId) (note : Note) : Entry :=
  ⟨length, match id? with
    | some id => .known id
    | none => .skipped note⟩

/-- One IPv4 or TCP option within the last `region` bytes of its header. Kinds 0
and 1 are one byte long, every other kind gives its length in the byte behind the
kind, and kind 0 ends the list. -/
def optionStep (recognize : Nat → Option ProtocolId) (region : Nat) (rest : Bytes) :
    Move Nat Entry (Option Note) :=
  if region = 0 then .stop none
  else
    match u8? rest 0 with
    | none => .stop none
    | some kind =>
        match if kind ≤ 1 then some 1 else u8? rest 1 with
        | none => .stop none
        | some length =>
            if 1 < kind ∧ length < 2 ∨ region < length then
              .stop (some (.malformedOption kind length))
            else
              .take (.ofId? length (recognize kind) (.skippedOption kind)) length
                (if kind = 0 then 0 else region - length)

/-- The IPv4 or TCP options in the first `region` bytes. -/
def optionEntries (recognize : Nat → Option ProtocolId) (region : Nat) (rest : Bytes) :
    Scanned Entry (Option Note) :=
  scan (optionStep recognize) none region rest

/-- One option within the last `region` bytes of a Hop-by-Hop header. Type 0 is
one byte long; every other type gives the count of bytes behind its length byte. -/
def hopByHopStep (region : Nat) (rest : Bytes) : Move Nat Entry (Option Note) :=
  if region = 0 then .stop none
  else
    match u8? rest 0 with
    | none => .stop none
    | some kind =>
        match if kind = 0 then some 1 else (u8? rest 1).map (2 + ·) with
        | none => .stop none
        | some length =>
            if region < length then .stop (some (.overrunningHopByHop kind))
            else
              .take (.ofId? length ((HopByHopOption.ofCode? kind).map HopByHopOption.id)
                (.skippedHopByHop kind)) length (region - length)

def hopByHopEntries (region : Nat) (rest : Bytes) : Scanned Entry (Option Note) :=
  scan hopByHopStep none region rest

/-- One Neighbor-Discovery option. Its second byte gives its length in units of
eight bytes, and an option that is not recognized has to be captured whole. -/
def ndStep (_ : Unit) (rest : Bytes) : Move Unit Entry (Option Note) :=
  match u8? rest 0, u8? rest 1 with
  | some kind, some units =>
      if units = 0 then .stop (some (.emptyNdOption kind))
      else
        match NdOption.ofCode? kind with
        | some option => .take ⟨units * 8, .known option.id⟩ (units * 8) ()
        | none =>
            if has rest (units * 8) then
              .take ⟨units * 8, .skipped (.skippedNdOption kind)⟩ (units * 8) ()
            else .stop none
  | _, _ => .stop none

/-- The Neighbor-Discovery options up to the end of the capture. -/
def ndEntries (rest : Bytes) : Scanned Entry (Option Note) :=
  scan ndStep none () rest

theorem optionStep_advances (recognize : Nat → Option ProtocolId) :
    Advances (optionStep recognize) := by
  intro region rest
  unfold optionStep
  split
  · simp
  · split
    · simp
    · split
      · simp
      · rename_i length hlength
        split
        · simp
        · rename_i hwell
          rw [Move.advances_take]
          split at hlength
          · injection hlength with hlength
            omega
          · omega

theorem hopByHopStep_advances : Advances hopByHopStep := by
  intro region rest
  unfold hopByHopStep
  split
  · simp
  · split
    · simp
    · split
      · simp
      · rename_i length hlength
        split
        · simp
        · rw [Move.advances_take]
          split at hlength
          · injection hlength with hlength
            omega
          · obtain ⟨count, _, rfl⟩ := Option.map_eq_some_iff.mp hlength
            omega

theorem ndStep_advances : Advances ndStep := by
  intro state rest
  unfold ndStep
  split
  · split
    · simp
    · have hsize (units : Nat) (hunits : ¬units = 0) : 0 < units * 8 := by
        omega
      split
      · exact hsize _ ‹_›
      · split
        · exact hsize _ ‹_›
        · simp
  · simp

end Dissection

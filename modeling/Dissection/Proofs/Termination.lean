import Mathlib.Data.List.Infix
import Dissection.Proofs.CallProtocol
import Dissection.Proofs.Consultation
import Dissection.Proofs.Nesting

/-!
Termination. Every loop over captured bytes reads on at a greater offset or ends, and the chain
of headers enters an IP header one deeper than the last, never at the limit of nesting.
-/

namespace Dissection

/-- Where a loop over captured bytes stands: its state, and the offset at which it reads. -/
structure Standing (σ : Type) where
  state : σ
  offset : Nat

section Loops

variable {σ α ω : Type} {step : σ → Bytes → Move σ α ω}

/-- One iteration: an item is taken, and the loop goes on behind it. -/
def Iterates (step : σ → Bytes → Move σ α ω) (captured : Bytes) (before after : Standing σ) :
    Prop :=
  ∃ item size, step before.state (captured.drop before.offset) = .take item size after.state ∧
    after.offset = before.offset + size

/-- What the loop comes to from where it stands, with the verdict `cut` where an item is cut off. -/
def Standing.scan (step : σ → Bytes → Move σ α ω) (cut : ω) (captured : Bytes)
    (standing : Standing σ) : Scanned α ω :=
  Dissection.scan step cut standing.state (captured.drop standing.offset)

/-- No read succeeds behind the captured bytes. -/
def StopsPast (step : σ → Bytes → Move σ α ω) : Prop :=
  ∀ state, ∃ verdict, step state [] = .stop verdict

/-- What bounds a loop, from whatever state and offset it starts. -/
structure Bounded (step : σ → Bytes → Move σ α ω) : Prop where
  increases : ∀ captured before after, Iterates step captured before after →
    before.offset < after.offset
  /-- An iteration within the captured bytes is followed by what the loop comes to behind it. One
  that leads behind them is the last. -/
  within_or_last : ∀ cut captured before after, Iterates step captured before after →
    before.offset ≤ captured.length → ∃ item,
      after.offset ≤ captured.length ∧
          before.scan step cut captured = (after.scan step cut captured).cons item ∨
        captured.length < after.offset ∧ before.scan step cut captured = ⟨[item], cut⟩
  finite : ∀ captured : Bytes, WellFounded fun after before =>
    before.offset ≤ captured.length ∧ Iterates step captured before after
  /-- The scan that stands for the loop makes its iterations, and not more of them than there
  are bytes, but for one that is cut off. -/
  scans : ∀ cut state bytes, Scans step cut state bytes (scan step cut state bytes) ∧
    (scan step cut state bytes).items.length ≤ bytes.length + 1

theorem Iterates.offset_lt {captured : Bytes} {before after : Standing σ} (hstep : Advances step)
    (h : Iterates step captured before after) : before.offset < after.offset := by
  obtain ⟨item, size, hmove, hoffset⟩ := h
  have hadvance := hstep before.state (captured.drop before.offset)
  rw [hmove, Move.advances_take] at hadvance
  omega

theorem Scans.length_items_le {cut : ω} {state : σ} {bytes : Bytes} {found : Scanned α ω}
    (hstep : Advances step) (h : Scans step cut state bytes found) :
    found.items.length ≤ bytes.length + 1 := by
  induction h with
  | stop _ | last _ _ => simp
  | @take state next bytes item size behind hmove hsize _ ih =>
      have hadvance := hstep state bytes
      rw [hmove, Move.advances_take] at hadvance
      rw [List.length_drop] at ih
      rw [Scanned.cons_items, List.length_cons]
      omega

theorem Advances.bounded (hstep : Advances step) : Bounded step := by
  constructor
  · intro captured before after h
    exact h.offset_lt hstep
  · rintro cut captured before after ⟨item, size, hmove, hoffset⟩ hbefore
    refine ⟨item, ?_⟩
    have hlength : (captured.drop before.offset).length = captured.length - before.offset :=
      List.length_drop
    rcases Nat.lt_or_ge captured.length after.offset with hbehind | hwithin
    · exact .inr ⟨hbehind, scan_of_last cut hstep hmove (by omega)⟩
    · refine .inl ⟨hwithin, ?_⟩
      rw [Standing.scan, scan_of_take cut hstep hmove (by omega), List.drop_drop, ← hoffset]
      rfl
  · intro captured
    -- The bytes between the offset and the end grow fewer with every iteration.
    apply Subrelation.wf _ (measure fun standing : Standing σ =>
      captured.length + 1 - standing.offset).wf
    rintro after before ⟨hwithin, hiterates⟩
    have hoffset := hiterates.offset_lt hstep
    change captured.length + 1 - after.offset < captured.length + 1 - before.offset
    omega
  · intro cut state bytes
    have hscans : Scans step cut state bytes _ := scans_scan hstep state bytes
    exact ⟨hscans, hscans.length_items_le hstep⟩

end Loops

theorem optionStep_stopsPast (recognize : Nat → Option ProtocolId) :
    StopsPast (optionStep recognize) := by
  intro region
  cases region <;> exact ⟨none, rfl⟩

theorem hopByHopStep_stopsPast : StopsPast hopByHopStep := by
  intro region
  cases region <;> exact ⟨none, rfl⟩

theorem ndStep_stopsPast : StopsPast ndStep := by
  intro state
  exact ⟨none, rfl⟩

theorem addressRecordStep_stopsPast : StopsPast addressRecordStep := by
  intro count
  cases count <;> exact ⟨(), rfl⟩

theorem sourceRouteStep_stopsPast : StopsPast sourceRouteStep := by
  intro finished
  cases finished
  · exact ⟨false, rfl⟩
  · exact ⟨true, rfl⟩

/-- Every loop over captured bytes is bounded. Tags and labels are moves of the chain. What is
skipped may lead behind the captured bytes, and then the next read ends the loop. -/
structure LoopsBounded : Prop where
  chain : Bounded chainStep
  extensions : Bounded extensionStep
  options : ∀ recognize, Bounded (optionStep recognize) ∧ StopsPast (optionStep recognize)
  hopByHop : Bounded hopByHopStep ∧ StopsPast hopByHopStep
  discovery : Bounded ndStep ∧ StopsPast ndStep
  addressRecords : Bounded addressRecordStep ∧ StopsPast addressRecordStep
  sourceRoute : Bounded sourceRouteStep ∧ StopsPast sourceRouteStep

theorem loopsBounded : LoopsBounded := by
  constructor
  · exact chainStep_advances.bounded
  · exact extensionStep_advances.bounded
  · intro recognize
    exact ⟨(optionStep_advances recognize).bounded, optionStep_stopsPast recognize⟩
  · exact ⟨hopByHopStep_advances.bounded, hopByHopStep_stopsPast⟩
  · exact ⟨ndStep_advances.bounded, ndStep_stopsPast⟩
  · exact ⟨addressRecordStep_advances.bounded, addressRecordStep_stopsPast⟩
  · exact ⟨sourceRouteStep_advances.bounded, sourceRouteStep_stopsPast⟩

namespace Expected

/-- The depth of the IP header that is expected. -/
def ipDepth? : Expected → Option Nat
  | .ipv4 depth | .ipv6 depth | .quoted depth => some depth
  | .labelled => some 0
  | _ => none

/-- The depth at which a header is expected, from the network layer up. -/
def depth? : Expected → Option Nat
  | .tcp depth | .udp depth | .sctp depth | .gre depth | .icmp4 depth | .icmp6 depth => some depth
  | expected => expected.ipDepth?

/-- Behind a header of the link layer, an IP header is entered at depth zero, and behind others
one deeper; what else is expected is at the same depth. -/
structure Descends (expected next : Expected) : Prop where
  entered : ∀ depth, next.ipDepth? = some depth →
    depth < nestingLimit ∧ depth = (expected.depth?.map (· + 1)).getD 0
  kept : ∀ depth, next.ipDepth? = none → next.depth? = some depth → expected.depth? = some depth

section Descends

variable {expected next : Expected} {depth : Nat}

theorem Descends.of_entered (hip : next.ipDepth? = some depth) (hlimit : depth < nestingLimit)
    (hdepth : depth = (expected.depth?.map (· + 1)).getD 0) : expected.Descends next := by
  constructor
  · rintro other hother
    cases hip.symm.trans hother
    exact ⟨hlimit, hdepth⟩
  · simp [hip]

theorem Descends.of_kept (hip : next.ipDepth? = none)
    (hdepth : next.depth? = none ∨ next.depth? = expected.depth?) : expected.Descends next := by
  constructor
  · simp [hip]
  · rintro depth - hnext
    rcases hdepth with hnone | hsame
    · simp [hnone] at hnext
    · rw [← hsame, hnext]

theorem Descends.nothing (ending : Ending) : expected.Descends (.nothing ending) :=
  .of_kept rfl (.inl rfl)

theorem Descends.nested {inside : Nat → Expected} (hdepth : expected.depth? = some depth)
    (hinside : ∀ depth, (inside depth).ipDepth? = some depth) :
    expected.Descends (nested depth inside) := by
  unfold Expected.nested
  split
  · rename_i hlimit
    exact .of_entered (hinside _) hlimit (by simp [hdepth])
  · exact .nothing _

theorem descends_ofEtherType (etherType : Nat) (h : expected.depth? = none) :
    expected.Descends (ofEtherType etherType) := by
  have hzero : 0 = (expected.depth?.map (· + 1)).getD 0 := by simp [h]
  unfold ofEtherType
  split
  case h_1 | h_2 => exact .of_entered rfl (by decide) hzero
  all_goals exact .of_kept rfl (.inl rfl)

theorem descends_ofTypeField (field : Nat) (h : expected.depth? = none) :
    expected.Descends (ofTypeField field) := by
  unfold ofTypeField
  split
  · exact .of_kept rfl (.inl rfl)
  · split
    · exact .of_kept rfl (.inl rfl)
    · exact descends_ofEtherType field h

theorem descends_ofServicePoints (destination source control : Nat) :
    expected.Descends (ofServicePoints destination source control) := by
  unfold ofServicePoints
  split <;> exact .of_kept rfl (.inl rfl)

theorem descends_ofIpNumber (number : Nat) (h : expected.depth? = some depth) :
    expected.Descends (ofIpNumber depth number) := by
  unfold ofIpNumber
  split
  case h_7 | h_8 => exact .nested h fun _ => rfl
  case h_9 | h_10 => exact .nothing _
  all_goals exact .of_kept rfl (.inr h.symm)

theorem descends_ofGrePayload (etherType : Nat) (h : expected.depth? = some depth) :
    expected.Descends (ofGrePayload depth etherType) := by
  unfold ofGrePayload
  split
  · exact .nested h fun _ => rfl
  · exact .nested h fun _ => rfl
  · exact .nothing _

theorem Descends.of_depth? {other : Expected} (h : other.Descends next)
    (hdepth : other.depth? = expected.depth?) : expected.Descends next := by
  obtain ⟨hentered, hkept⟩ := h
  rw [hdepth] at hentered hkept
  exact ⟨hentered, hkept⟩

end Descends

end Expected

theorem Finds.descends {expected next : Expected} {rest : Bytes} {layer : Layer}
    (h : Finds rest expected layer next) : expected.Descends next := by
  induction h with
  | ethernet _ | vlan _ => exact Expected.descends_ofTypeField _ rfl
  | llc _ _ _ _ _ => exact Expected.descends_ofServicePoints _ _ _
  | snap _ => exact Expected.descends_ofEtherType _ rfl
  | mpls _ =>
      split
      · exact .of_entered rfl (by decide) rfl
      · exact .of_kept rfl (.inl rfl)
  | ipv4 _ _ _ _ _ =>
      split
      · exact .nothing _
      · exact Expected.descends_ofIpNumber _ rfl
  | ipv6 _ _ _ _ => exact Expected.descends_ofIpNumber _ rfl
  | labelledIpv4 _ _ _ ih | labelledIpv6 _ _ _ ih | quotedIpv4 _ _ _ ih
  | quotedIpv6 _ _ _ ih => exact ih.of_depth? rfl
  | gre _ _ _ => exact Expected.descends_ofGrePayload _ rfl
  | icmp6Error _ _ => exact .nested rfl fun _ => rfl
  | novellFrame => exact .of_kept rfl (.inl rfl)
  | _ => exact .nothing _

theorem Iterates.descends {captured : Bytes} {before after : Standing Expected}
    (h : Iterates chainStep captured before after) : before.state.Descends after.state := by
  obtain ⟨layer, size, hmove, _⟩ := h
  exact (chainStep_eq_take_iff.mp hmove).2.descends

/-- The depth of an IP header is the count of those before it in the chain, and there are
never more of them than the limit. -/
theorem Scans.ipLayers_le {expected : Expected} {rest : Bytes} {found : Scanned Layer Ending}
    (h : Scans chainStep .silent expected rest found) {count : Nat} (hcount : expected.Behind count)
    (hlimit : count ≤ Expected.nestingLimit) :
    count + ipLayers found.items ≤ Expected.nestingLimit ∧
      ∀ init layer behind, found.items = init ++ layer :: behind → layer.kind.isIp = true →
        layer.depth = count + ipLayers init ∧ layer.depth < Expected.nestingLimit := by
  have hfirst {expected next : Expected} {rest : Bytes} {layer : Layer} {count : Nat}
      (hfinds : Finds rest expected layer next) (hcount : expected.Behind count)
      (hlimit : count ≤ Expected.nestingLimit) :
      count + layer.kind.isIp.toNat ≤ Expected.nestingLimit ∧
        (layer.kind.isIp = true → layer.depth = count ∧ layer.depth < Expected.nestingLimit) := by
    have hbehind := (hfinds.behind hcount).2
    cases hip : layer.kind.isIp with
    | false => simpa using hlimit
    | true =>
        obtain ⟨hdepth, hnested⟩ := hbehind (HeaderKind.nests_of_isIp hip)
        simp only [hip, Bool.toNat_true] at hdepth ⊢
        omega
  induction h generalizing count with
  | stop _ => exact ⟨hlimit, fun init layer behind hitems => by cases init <;> cases hitems⟩
  | last hmove _ =>
      obtain ⟨hone, hdepth⟩ := hfirst (chainStep_eq_take_iff.mp hmove).2 hcount hlimit
      rw [ipLayers_cons]
      refine ⟨hone, ?_⟩
      intro init layer behind hitems hip
      cases init with
      | nil =>
          cases hitems
          exact hdepth hip
      | cons first init => cases init <;> cases (List.cons.inj hitems).2
  | @take expected next rest item size found hmove _ _ ih =>
      obtain ⟨_, hfinds⟩ := chainStep_eq_take_iff.mp hmove
      obtain ⟨hone, hdepth⟩ := hfirst hfinds hcount hlimit
      obtain ⟨hothers, hdepths⟩ := ih (hfinds.behind hcount).1 hone
      rw [Scanned.cons_items, ipLayers_cons, ← Nat.add_assoc]
      refine ⟨hothers, ?_⟩
      intro init layer behind hitems hip
      cases init with
      | nil =>
          cases hitems
          exact hdepth hip
      | cons first init =>
          obtain ⟨rfl, hrest⟩ := List.cons.inj hitems
          rw [ipLayers_cons, ← Nat.add_assoc]
          exact hdepths init layer behind hrest hip

theorem ipPlaces_widened (pieces : List Piece) :
    ipPlaces (widened pieces) = pieces.countP fun piece => piece.place.isIp := by
  induction pieces with
  | nil => rfl
  | cons piece rest ih =>
      obtain ⟨role, place⟩ := piece
      rw [ipPlaces] at ih ⊢
      cases role with
      | header =>
          simp only [widened, List.countP_cons, ih]
          rfl
      | trailer | member => simp only [widened, List.countP_cons, ih]

namespace Dissector

/-- A dissection ends, whatever the bytes: it is refused and changes nothing, or it tells what it
found. Its loops are bounded, its headers nest up to the limit and no deeper, and so no more IP
headers are recorded. -/
theorem terminates_dissect (dissector : Dissector) (frame : Bytes) (timestamp : UInt64)
    (captured wire : Nat) :
    let outcome := dissector.dissect frame timestamp captured wire
    (∀ error : DissectError, error.Refuses (dissector.isIdle = false) frame captured wire →
      outcome = ⟨dissector, .error error, []⟩) ∧
      (dissector.isIdle = true → captured ≤ 65535 → wire ≤ 65535 → captured ≤ frame.length →
        (∃ count, outcome.result = .ok count) ∧
          (dissector.extension = none → ipPlaces outcome.dissector.table.places ≤ 4)) ∧
      (∀ before after, Iterates chainStep (frame.take captured) before after →
        before.state.Descends after.state) ∧
      (∀ init layer behind,
        (frameChain dissector.settings.datalink (frame.take captured)).items =
          init ++ layer :: behind →
        layer.kind.isIp = true → layer.depth = ipLayers init ∧ layer.depth < 4) ∧
      LoopsBounded := by
  intro outcome
  have hscans : Scans chainStep .silent (.ethernet dissector.settings.datalink)
      (frame.take captured) (frameChain dissector.settings.datalink (frame.take captured)) :=
    scans_scan chainStep_advances _ _
  have hnested := hscans.ipLayers_le (show Expected.Behind 0 _ from rfl) (Nat.zero_le _)
  simp only [Nat.zero_add] at hnested
  refine ⟨?refused, ?accepted, fun _ _ => Iterates.descends, hnested.2, loopsBounded⟩
  case refused =>
    intro error hrefuses
    exact dissect_of_error timestamp (captured?_eq_error_iff.mpr hrefuses)
  case accepted =>
    intro hidle hcaptured hwire hframe
    have hbytes : dissector.captured? frame captured wire = .ok (frame.take captured) :=
      captured?_eq_ok_iff.mpr ⟨hidle, hcaptured, hwire, hframe, rfl⟩
    refine ⟨⟨_, result_dissect timestamp hbytes⟩, ?_⟩
    intro hextension
    have hfront := accepted_front RecordTable.capacity captured
      (framePieces dissector.settings.datalink (frame.take captured))
    rw [places_dissect timestamp hextension hbytes, ipPlaces_widened]
    apply hfront.sublist.countP_le.trans
    rw [← ipPlaces_widened, framePieces, frameChain, ipPlaces_layerPieces 0 (chain_shaped _ _)]
    exact hnested.1

/-- A frame of nothing but IPv4 headers, one in the other. -/
def nestedFrame (count : Nat) : Bytes :=
  List.replicate 12 0 ++ [0x08, 0x00] ++
    (List.replicate count ([0x45, 0, 0, 0, 0, 0, 0, 0, 0, 4] ++ List.replicate 10 0)).flatten

theorem terminates_nestedFrame :
    let outcome := (new .default).dissect (nestedFrame 5) 0 114 114
    (new .default).isIdle = true ∧ 114 ≤ (nestedFrame 5).length ∧
      ipPlaces outcome.dissector.table.places = 4 ∧ (∃ count, outcome.result = .ok count) ∧
        ipPlaces outcome.dissector.table.places ≤ 4 := by
  intro outcome
  have hidle : (new .default).isIdle = true := rfl
  have hlength : 114 ≤ (nestedFrame 5).length := by decide
  obtain ⟨_, haccepted, _⟩ := terminates_dissect (new .default) (nestedFrame 5) 0 114 114
  obtain ⟨hresult, hplaces⟩ := haccepted hidle (by decide) (by decide) hlength
  exact ⟨hidle, hlength, by decide +kernel, hresult, hplaces rfl⟩

end Dissector

end Dissection

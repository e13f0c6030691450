import Dissection.Proofs.Headers
import Dissection.Proofs.Showing

namespace Dissection

open Bytes

/-- The part of a summary that the kinds of the headers decide. -/
structure Tally where
  network : NetworkType
  transport : TransportType
  vlans : Nat
  labels : Nat
  deriving DecidableEq, Repr

def Summary.tally (summary : Summary) : Tally :=
  ⟨summary.network, summary.transport, summary.vlans, summary.labels⟩

namespace HeaderKind

def network? : HeaderKind → Option NetworkType
  | .ipv4 => some .ipv4
  | .ipv6 => some .ipv6
  | _ => none

def transport? : HeaderKind → Option TransportType
  | .tcp => some .tcp
  | .udp => some .udp
  | .sctp => some .sctp
  | .gre => some .gre
  | .icmp4 | .icmp4EchoRequest | .icmp4EchoReply => some .icmp4
  | .icmp6 | .icmp6EchoRequest | .icmp6EchoReply | .icmp6DestinationUnreachable
  | .icmp6TimeExceeded | .icmp6ParameterProblem | .icmp6RouterSolicitation
  | .icmp6RouterAdvertisement | .icmp6NeighborSolicitation | .icmp6NeighborAdvertisement
  | .icmp6ListenerReport => some .icmp6
  | _ => none

end HeaderKind

/-- The kind of a header and the count of IP headers in which it is nested. -/
abbrev Outline := HeaderKind × Nat

/-- What a layer has regardless of the bytes that were captured of it. -/
def Layer.outline (layer : Layer) : Outline :=
  (layer.kind, layer.depth)

namespace Tally

def add (tally : Tally) (kind : HeaderKind) : Tally where
  network := kind.network?.getD tally.network
  transport := kind.transport?.getD tally.transport
  vlans := if kind = .vlan then tally.vlans + 1 else tally.vlans
  labels := if kind = .mpls then tally.labels + 1 else tally.labels

/-- The tally with one more header, which counts for nothing if it is nested. -/
def addOutline (tally : Tally) (outline : Outline) : Tally :=
  if outline.2 = 0 then tally.add outline.1 else tally

/-- Counts have not fallen, and what was known has not changed. -/
structure Grows (tally other : Tally) : Prop where
  network : tally.network = .none ∨ tally.network = other.network
  transport : tally.transport = .none ∨ tally.transport = other.transport
  vlans_le : tally.vlans ≤ other.vlans
  labels_le : tally.labels ≤ other.labels

theorem Grows.refl (tally : Tally) : tally.Grows tally :=
  ⟨.inr rfl, .inr rfl, Nat.le_refl _, Nat.le_refl _⟩

theorem Grows.trans {tally mid other : Tally} (h : tally.Grows mid) (hother : mid.Grows other) :
    tally.Grows other := by
  refine ⟨?_, ?_, Nat.le_trans h.vlans_le hother.vlans_le,
    Nat.le_trans h.labels_le hother.labels_le⟩
  · rcases h.network with hnone | heq
    · exact .inl hnone
    · rw [heq]
      exact hother.network
  · rcases h.transport with hnone | heq
    · exact .inl hnone
    · rw [heq]
      exact hother.transport

/-- What is known when a chain has reached a stage: before the first, no network
protocol, and before the last, no transport protocol. -/
structure Settled (stage : Nat) (tally : Tally) : Prop where
  network : tally.network = .none ∨ 1 ≤ stage
  transport : tally.transport = .none ∨ 2 ≤ stage

end Tally

/-- The stage of a chain at a depth, where it is `stage` in the outermost packet. -/
def stageAt (stage depth : Nat) : Nat :=
  if depth = 0 then stage else 2

theorem stageAt_le {stage : Nat} (depth : Nat) (h : stage ≤ 2) : stageAt stage depth ≤ 2 := by
  unfold stageAt
  split
  · exact h
  · exact Nat.le_refl 2

theorem stageAt_mono {stage other : Nat} (depth : Nat) (h : stage ≤ other) :
    stageAt stage depth ≤ stageAt other depth := by
  unfold stageAt
  split
  · exact h
  · exact Nat.le_refl 2

/-- The stage of a chain where something is expected: 0 up to the IP header of the
outermost packet, 1 behind it, and 2 where nothing more of that packet is found. -/
def Expected.stage : Expected → Nat
  | .ipv4 depth | .ipv6 depth | .quoted depth => stageAt 0 depth
  | .tcp depth | .udp depth | .sctp depth | .gre depth | .icmp4 depth | .icmp6 depth =>
      stageAt 1 depth
  | .nothing _ => 2
  | _ => 0

/-- What the marks of a layer come to, where they count. -/
def Layer.Marked (layer : Layer) : Prop :=
  ∀ summary : Summary, (summary.addAll layer.marks).tally = summary.tally.add layer.kind

/-- A header of the outermost packet is found at its stage, and the chain goes on at
the next. -/
structure Staged (before : Nat) (layer : Layer) (after : Nat) : Prop where
  le : before ≤ after
  network : layer.depth = 0 → layer.kind.network?.isSome → before = 0 ∧ 1 ≤ after
  transport : layer.depth = 0 → layer.kind.transport?.isSome → before ≤ 1 ∧ 2 ≤ after

namespace Expected

theorem stage_nested (depth : Nat) {inside : Nat → Expected}
    (h : ∀ depth, 0 < depth → (inside depth).stage = 2) : (nested depth inside).stage = 2 := by
  unfold nested
  split
  · exact h _ (Nat.succ_pos _)
  · rfl

theorem stage_nested_ipv4 (depth : Nat) : (nested depth .ipv4).stage = 2 :=
  stage_nested depth fun _ h => if_neg (Nat.ne_of_gt h)

theorem stage_nested_ipv6 (depth : Nat) : (nested depth .ipv6).stage = 2 :=
  stage_nested depth fun _ h => if_neg (Nat.ne_of_gt h)

theorem stage_nested_quoted (depth : Nat) : (nested depth .quoted).stage = 2 :=
  stage_nested depth fun _ h => if_neg (Nat.ne_of_gt h)

theorem le_stage_ofIpNumber (depth number : Nat) :
    stageAt 1 depth ≤ (ofIpNumber depth number).stage := by
  have hlast : stageAt 1 depth ≤ 2 := stageAt_le depth (by decide)
  unfold ofIpNumber
  split
  case h_7 =>
    rw [stage_nested_ipv4]
    exact hlast
  case h_8 =>
    rw [stage_nested_ipv6]
    exact hlast
  all_goals first
    | exact Nat.le_refl _
    | exact hlast

theorem stage_ofGrePayload (depth etherType : Nat) : (ofGrePayload depth etherType).stage = 2 := by
  unfold ofGrePayload
  split
  · exact stage_nested_ipv4 depth
  · exact stage_nested_ipv6 depth
  · rfl

end Expected

section Headers

variable {layer : Layer} {before after : Nat}

theorem staged_link (hnetwork : layer.kind.network? = none)
    (htransport : layer.kind.transport? = none) : Staged 0 layer after := by
  refine ⟨Nat.zero_le _, ?_, ?_⟩
  · intro _ hsome
    simp [hnetwork] at hsome
  · intro _ hsome
    simp [htransport] at hsome

theorem staged_network (hbefore : before = stageAt 0 layer.depth)
    (htransport : layer.kind.transport? = none) (hafter : stageAt 1 layer.depth ≤ after) :
    Staged before layer after := by
  subst hbefore
  refine ⟨Nat.le_trans (stageAt_mono _ (Nat.zero_le 1)) hafter, ?_, ?_⟩
  · intro hdepth _
    rw [stageAt, if_pos hdepth] at hafter ⊢
    exact ⟨rfl, hafter⟩
  · intro _ hsome
    simp [htransport] at hsome

theorem staged_transport (hbefore : before = stageAt 1 layer.depth)
    (hnetwork : layer.kind.network? = none) (hafter : after = 2) :
    Staged before layer after := by
  subst hbefore hafter
  refine ⟨stageAt_le _ (by decide), ?_, ?_⟩
  · intro _ hsome
    simp [hnetwork] at hsome
  · intro hdepth _
    rw [stageAt, if_pos hdepth]
    exact ⟨Nat.le_refl 1, Nat.le_refl 2⟩

theorem tally_novellMarks (summary : Summary) (field : Nat) (payload : Bytes) :
    (summary.addAll (novellMarks field payload)).tally = summary.tally := by
  unfold novellMarks
  split <;> rfl

variable {expected next : Expected} {rest : Bytes}

theorem Finds.marked (h : Finds rest expected layer next) : layer.Marked := by
  induction h with
  | ethernet _ =>
      intro summary
      show (summary.addAll (framingMarks _ _)).tally = summary.tally
      unfold framingMarks
      split
      · rfl
      · exact tally_novellMarks _ _ _
  | vlan _ => exact fun summary => tally_novellMarks _ _ _
  | labelledIpv4 _ _ _ ih | labelledIpv6 _ _ _ ih | quotedIpv4 _ _ _ ih
  | quotedIpv6 _ _ _ ih => exact ih
  | icmp4Echo _ hkind =>
      simp only [icmp4Echoes, List.mem_cons, Prod.mk.injEq, List.not_mem_nil, or_false] at hkind
      rcases hkind with ⟨_, rfl⟩ | ⟨_, rfl⟩ <;> exact fun _ => rfl
  | icmp6Error _ hkind =>
      simp only [icmp6Errors, List.mem_cons, Prod.mk.injEq, List.not_mem_nil, or_false] at hkind
      rcases hkind with ⟨_, rfl⟩ | ⟨_, rfl⟩ | ⟨_, rfl⟩ <;> exact fun _ => rfl
  | icmp6Echo _ hkind =>
      simp only [icmp6Echoes, List.mem_cons, Prod.mk.injEq, List.not_mem_nil, or_false] at hkind
      rcases hkind with ⟨_, rfl⟩ | ⟨_, rfl⟩ <;> exact fun _ => rfl
  | icmp6Discovery _ hkind =>
      simp only [icmp6Discoveries, List.mem_cons, Prod.mk.injEq, List.not_mem_nil,
        or_false] at hkind
      rcases hkind with ⟨_, rfl, _⟩ | ⟨_, rfl, _⟩ | ⟨_, rfl, _⟩ | ⟨_, rfl, _⟩ <;>
        exact fun _ => rfl
  | _ => exact fun _ => rfl

theorem Finds.staged (h : Finds rest expected layer next) :
    Staged expected.stage layer next.stage := by
  induction h with
  | ipv4 _ _ _ _ _ =>
      refine staged_network rfl rfl ?_
      split
      · exact stageAt_le _ (by decide)
      · exact Expected.le_stage_ofIpNumber _ _
  | ipv6Cut _ _ _ _ => exact staged_network rfl rfl (stageAt_le _ (by decide))
  | ipv6 _ _ _ _ => exact staged_network rfl rfl (Expected.le_stage_ofIpNumber _ _)
  | labelledIpv4 _ _ _ ih | labelledIpv6 _ _ _ ih | quotedIpv4 _ _ _ ih
  | quotedIpv6 _ _ _ ih => exact ih
  | tcp _ _ | udpCut _ | udp _ _ | sctp | icmp4 _ _ | icmp6Report _ | icmp6 _ _ =>
      exact staged_transport rfl rfl rfl
  | gre _ _ _ =>
      exact staged_transport rfl rfl (Expected.stage_ofGrePayload _ _)
  | icmp4Echo _ hkind =>
      have hnetwork : ∀ message ∈ icmp4Echoes, message.2.network? = none := by decide
      exact staged_transport rfl (hnetwork _ hkind) rfl
  | icmp6Error _ hkind =>
      have hnetwork : ∀ message ∈ icmp6Errors, message.2.network? = none := by decide
      exact staged_transport rfl (hnetwork _ hkind) (Expected.stage_nested_quoted _)
  | icmp6Echo _ hkind =>
      have hnetwork : ∀ message ∈ icmp6Echoes, message.2.network? = none := by decide
      exact staged_transport rfl (hnetwork _ hkind) rfl
  | icmp6Discovery _ hkind =>
      have hnetwork : ∀ message ∈ icmp6Discoveries, message.2.1.network? = none := by decide
      exact staged_transport rfl (hnetwork _ hkind) rfl
  | _ => exact staged_link rfl rfl

end Headers

theorem Staged.grows {before after : Nat} {layer : Layer} {tally : Tally}
    (h : Staged before layer after) (hsettled : tally.Settled before) :
    tally.Grows (tally.addOutline layer.outline) ∧
      (tally.addOutline layer.outline).Settled after := by
  have hle := h.le
  unfold Tally.addOutline Layer.outline
  dsimp only
  by_cases hdepth : layer.depth = 0
  · rw [if_pos hdepth]
    refine ⟨⟨?_, ?_, ?_, ?_⟩, ?_, ?_⟩
    · cases hnetwork : layer.kind.network? with
      | none => exact .inr (by simp [Tally.add, hnetwork])
      | some _ =>
          have hbefore := (h.network hdepth (by rw [hnetwork]; rfl)).1
          exact .inl (hsettled.network.resolve_right (by omega))
    · cases htransport : layer.kind.transport? with
      | none => exact .inr (by simp [Tally.add, htransport])
      | some _ =>
          have hbefore := (h.transport hdepth (by rw [htransport]; rfl)).1
          exact .inl (hsettled.transport.resolve_right (by omega))
    · dsimp only [Tally.add]
      split <;> omega
    · dsimp only [Tally.add]
      split <;> omega
    · cases hnetwork : layer.kind.network? with
      | none =>
          rcases hsettled.network with hnone | hstage
          · exact .inl (by simp [Tally.add, hnetwork, hnone])
          · exact .inr (by omega)
      | some _ => exact .inr (h.network hdepth (by rw [hnetwork]; rfl)).2
    · cases htransport : layer.kind.transport? with
      | none =>
          rcases hsettled.transport with hnone | hstage
          · exact .inl (by simp [Tally.add, htransport, hnone])
          · exact .inr (by omega)
      | some _ => exact .inr (h.transport hdepth (by rw [htransport]; rfl)).2
  · rw [if_neg hdepth]
    refine ⟨.refl tally, ?_, ?_⟩
    · exact hsettled.network.imp_right fun hstage => Nat.le_trans hstage hle
    · exact hsettled.transport.imp_right fun hstage => Nat.le_trans hstage hle

/-- The tally of some headers, with those of the outermost packet added to another. -/
def Tally.addAll (tally : Tally) (outlines : List Outline) : Tally :=
  outlines.foldl addOutline tally

theorem Scans.grows {expected : Expected} {rest : Bytes} {found : Scanned Layer Ending}
    (h : Scans chainStep .silent expected rest found) {tally : Tally}
    (hsettled : tally.Settled expected.stage) {few many : Nat} (hle : few ≤ many) :
    (tally.addAll ((found.items.map Layer.outline).take few)).Grows
      (tally.addAll ((found.items.map Layer.outline).take many)) := by
  induction h generalizing tally few many with
  | stop _ =>
      rw [List.map_nil, List.take_nil, List.take_nil]
      exact .refl tally
  | last hmove _ =>
      have hgrows := ((chainStep_eq_take_iff.mp hmove).2.staged.grows hsettled).1
      cases many with
      | zero =>
          rw [Nat.le_zero.mp hle]
          exact .refl tally
      | succ many =>
          cases few with
          | zero => simpa [Tally.addAll] using hgrows
          | succ few => simpa using Tally.Grows.refl _
  | take hmove _ _ ih =>
      obtain ⟨hgrows, hnext⟩ := (chainStep_eq_take_iff.mp hmove).2.staged.grows hsettled
      cases many with
      | zero =>
          rw [Nat.le_zero.mp hle]
          exact .refl tally
      | succ many =>
          cases few with
          | zero => exact hgrows.trans (ih hnext (Nat.zero_le many))
          | succ few => exact ih hnext (Nat.le_of_succ_le_succ hle)

theorem Layer.Marked.tally_facts {layer : Layer} (h : layer.Marked) (summary : Summary) :
    (summary.addAll layer.facts).tally = summary.tally.addOutline layer.outline := by
  unfold facts Tally.addOutline outline
  dsimp only
  split
  · exact h summary
  · rfl

theorem tally_flatMap_facts (summary : Summary) {layers : List Layer}
    (hmarked : ∀ layer ∈ layers, layer.Marked) :
    (summary.addAll (layers.flatMap Layer.facts)).tally =
      summary.tally.addAll (layers.map Layer.outline) := by
  induction layers generalizing summary with
  | nil => rfl
  | cons layer rest ih =>
      rw [List.forall_mem_cons] at hmarked
      rw [List.flatMap_cons, Summary.addAll_append, ih _ hmarked.2, hmarked.1.tally_facts]
      rfl

/-- Recording a chain adds its first headers to the tally, as many as are taken. -/
theorem tally_recordLayers {table : RecordTable} (h : table.Regular) (summary : Summary)
    (offset : Nat) {layers : List Layer} (hclosed : ClosedChain layers)
    (hmarked : ∀ layer ∈ layers, layer.Marked) :
    (recordLayers table summary offset layers).summary.tally =
      summary.tally.addAll ((layers.map Layer.outline).take
        (headers (table.taken (layerPieces offset layers)))) := by
  have hsummary := congrArg Summary.tally (unfragmented_recordLayers h summary offset hclosed)
  rw [← List.map_take]
  exact hsummary.trans (tally_flatMap_facts summary fun layer hlayer =>
    hmarked layer (List.mem_of_mem_take hlayer))

end Dissection

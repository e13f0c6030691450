import Dissection.Proofs.Nesting

/-!
Depth. A move along a chain reads its bytes the same however deep it is made, as long as it
is within the limit of nesting (`chainStep_deepen`). So a chain that is started deeper finds
the same headers, up to the first IP header that is at the limit there (`Scans.deepen`).
-/

namespace Dissection

namespace Expected

/-- An IP header or a quoted packet at a depth, if nesting goes that deep. -/
def entered (depth : Nat) (inside : Nat → Expected) : Expected :=
  if depth < nestingLimit then inside depth else .nothing (.remark (.nestingLimit depth))

/-- What is expected `extra` deeper. -/
def deepen (extra : Nat) : Expected → Expected
  | .ipv4 depth => entered (depth + extra) .ipv4
  | .ipv6 depth => entered (depth + extra) .ipv6
  | .quoted depth => entered (depth + extra) .quoted
  | .tcp depth => .tcp (depth + extra)
  | .udp depth => .udp (depth + extra)
  | .sctp depth => .sctp (depth + extra)
  | .gre depth => .gre (depth + extra)
  | .icmp4 depth => .icmp4 (depth + extra)
  | .icmp6 depth => .icmp6 (depth + extra)
  | expected => expected

/-- What is expected in a packet and is within the limit of nesting `extra` deeper. -/
def Within (extra : Nat) : Expected → Prop
  | .ipv4 depth | .ipv6 depth | .quoted depth | .tcp depth | .udp depth | .sctp depth
  | .gre depth | .icmp4 depth | .icmp6 depth => depth + extra < nestingLimit
  | .nothing _ => True
  | _ => False

/-- An IP header or a quoted packet that is at the limit of nesting `extra` deeper. -/
def AtLimit (extra : Nat) : Expected → Prop
  | .ipv4 depth | .ipv6 depth | .quoted depth => depth + extra = nestingLimit
  | _ => False

theorem entered_of_lt {depth : Nat} (h : depth < nestingLimit) (inside : Nat → Expected) :
    entered depth inside = inside depth :=
  if_pos h

theorem entered_of_eq {depth : Nat} (h : depth = nestingLimit) (inside : Nat → Expected) :
    entered depth inside = .nothing (.remark (.nestingLimit depth)) :=
  if_neg (h ▸ Nat.lt_irrefl _)

variable {expected : Expected} {depth extra count : Nat}

theorem AtLimit.deepen_eq (h : expected.AtLimit extra) :
    ∃ ending, expected.deepen extra = .nothing ending := by
  cases expected with
  | ipv4 depth | ipv6 depth | quoted depth => exact ⟨_, entered_of_eq h _⟩
  | _ => exact h.elim

theorem AtLimit.count_eq (h : expected.AtLimit extra) (hcount : expected.Behind count) :
    count + extra = nestingLimit := by
  cases expected with
  | ipv4 depth | ipv6 depth | quoted depth =>
      obtain ⟨rfl, _⟩ := hcount
      exact h
  | _ => exact h.elim

theorem AtLimit.isIp {rest : Bytes} {kind : HeaderKind} (h : expected.AtLimit extra)
    (hyields : expected.Yields rest kind) : kind.isIp = true := by
  cases expected with
  | ipv4 depth =>
      cases (show kind = .ipv4 from hyields)
      rfl
  | ipv6 depth =>
      cases (show kind = .ipv6 from hyields)
      rfl
  | quoted depth =>
      obtain ⟨_, _, ⟨rfl, _⟩ | ⟨rfl, _⟩⟩ := hyields <;> rfl
  | _ => exact h.elim

theorem deepen_nested {inside : Nat → Expected} (h : depth + extra < nestingLimit)
    (hinside : ∀ depth, (inside depth).deepen extra = entered (depth + extra) inside) :
    (nested depth inside).deepen extra = nested (depth + extra) inside := by
  by_cases hdepth : depth + 1 < nestingLimit
  · rw [nested, if_pos hdepth, hinside, Nat.add_right_comm]
    rfl
  · -- The limit is reached at the same depth in both, so neither is deeper.
    obtain rfl : extra = 0 := by omega
    rw [nested, if_neg hdepth]
    exact (if_neg hdepth).symm

theorem deepen_ofIpNumber (number : Nat) (h : depth + extra < nestingLimit) :
    (ofIpNumber depth number).deepen extra = ofIpNumber (depth + extra) number := by
  unfold ofIpNumber
  split
  case h_7 | h_8 => exact deepen_nested h fun _ => rfl
  all_goals rfl

theorem deepen_ofGrePayload (etherType : Nat) (h : depth + extra < nestingLimit) :
    (ofGrePayload depth etherType).deepen extra = ofGrePayload (depth + extra) etherType := by
  unfold ofGrePayload
  split
  · exact deepen_nested h fun _ => rfl
  · exact deepen_nested h fun _ => rfl
  · rfl

end Expected

/-- The layer `extra` deeper. -/
def Layer.deepen (extra : Nat) (layer : Layer) : Layer :=
  { layer with depth := layer.depth + extra }

/-- The move `extra` deeper. -/
def ChainMove.deepen (extra : Nat) : ChainMove → ChainMove
  | .stop ending => .stop ending
  | .take layer span next => .take (layer.deepen extra) span (next.deepen extra)

section Moves

variable {depth extra : Nat} (rest : Bytes)

theorem Layer.deepen_then {layer deeper : Layer} {next further : Expected}
    (hlayer : layer.deepen extra = deeper) (hnext : next.deepen extra = further) :
    (layer.then next).deepen extra = deeper.then further := by
  rw [← hlayer, ← hnext]
  rfl

theorem ipv4Move_deepen (h : depth + extra < Expected.nestingLimit) :
    (ipv4Move depth rest).deepen extra = ipv4Move (depth + extra) rest := by
  unfold ipv4Move
  split
  · rfl
  · dsimp only
    split
    · rfl
    · split
      · rfl
      · split
        · refine Layer.deepen_then rfl ?_
          split
          · rfl
          · exact Expected.deepen_ofIpNumber _ h
        · rfl

theorem ipv6Move_deepen (h : depth + extra < Expected.nestingLimit) :
    (ipv6Move depth rest).deepen extra = ipv6Move (depth + extra) rest := by
  unfold ipv6Move
  split
  · rfl
  · split
    · rfl
    · split
      · rfl
      · refine Layer.deepen_then rfl ?_
        split
        · rfl
        · exact Expected.deepen_ofIpNumber _ h

theorem quotedMove_deepen (h : depth + extra < Expected.nestingLimit) :
    (quotedMove depth rest).deepen extra = quotedMove (depth + extra) rest := by
  unfold quotedMove
  split
  · rfl
  · split
    · exact ipv4Move_deepen rest h
    · exact ipv6Move_deepen rest h
    · rfl

theorem tcpMove_deepen : (tcpMove depth rest).deepen extra = tcpMove (depth + extra) rest := by
  unfold tcpMove
  split
  · rfl
  · dsimp only
    split <;> rfl

theorem udpMove_deepen : (udpMove depth rest).deepen extra = udpMove (depth + extra) rest := by
  unfold udpMove
  refine Layer.deepen_then rfl ?_
  split <;> rfl

theorem greMove_deepen (h : depth + extra < Expected.nestingLimit) :
    (greMove depth rest).deepen extra = greMove (depth + extra) rest := by
  unfold greMove
  split
  · split
    · rfl
    · exact Layer.deepen_then rfl (Expected.deepen_ofGrePayload _ h)
  · rfl

theorem icmp4Move_deepen :
    (icmp4Move depth rest).deepen extra = icmp4Move (depth + extra) rest := by
  unfold icmp4Move
  split
  · rfl
  · dsimp only
    split <;> rfl

theorem icmp6Move_deepen (h : depth + extra < Expected.nestingLimit) :
    (icmp6Move depth rest).deepen extra = icmp6Move (depth + extra) rest := by
  unfold icmp6Move
  split
  · rfl
  · dsimp only
    split
    case h_1 | h_2 | h_3 =>
      exact Layer.deepen_then rfl (Expected.deepen_nested h fun _ => rfl)
    all_goals rfl

end Moves

theorem chainStep_deepen {expected : Expected} {extra : Nat} (h : expected.Within extra)
    (rest : Bytes) :
    chainStep (expected.deepen extra) rest = (chainStep expected rest).deepen extra := by
  cases expected with
  | ipv4 depth =>
      rw [Expected.deepen, Expected.entered_of_lt h]
      exact (ipv4Move_deepen rest h).symm
  | ipv6 depth =>
      rw [Expected.deepen, Expected.entered_of_lt h]
      exact (ipv6Move_deepen rest h).symm
  | quoted depth =>
      rw [Expected.deepen, Expected.entered_of_lt h]
      exact (quotedMove_deepen rest h).symm
  | tcp depth => exact (tcpMove_deepen rest).symm
  | udp depth => exact (udpMove_deepen rest).symm
  | sctp depth => rfl
  | gre depth => exact (greMove_deepen rest h).symm
  | icmp4 depth => exact (icmp4Move_deepen rest).symm
  | icmp6 depth => exact (icmp6Move_deepen rest h).symm
  | nothing ending => rfl
  | _ => exact h.elim

namespace Expected

variable {depth extra : Nat}

/-- What is expected in a packet and is not beyond the limit of nesting `extra` deeper. -/
def Deepens (extra : Nat) (expected : Expected) : Prop :=
  expected.Within extra ∨ expected.AtLimit extra

theorem deepens_nested {inside : Nat → Expected} (h : depth + extra < nestingLimit)
    (hinside : ∀ depth, depth + extra ≤ nestingLimit → (inside depth).Deepens extra) :
    (nested depth inside).Deepens extra := by
  unfold nested
  split
  · exact hinside _ (by omega)
  · exact .inl trivial

theorem deepens_nested_ipv4 (h : depth + extra < nestingLimit) :
    (nested depth .ipv4).Deepens extra :=
  deepens_nested h fun _ => Nat.lt_or_eq_of_le

theorem deepens_nested_ipv6 (h : depth + extra < nestingLimit) :
    (nested depth .ipv6).Deepens extra :=
  deepens_nested h fun _ => Nat.lt_or_eq_of_le

theorem deepens_nested_quoted (h : depth + extra < nestingLimit) :
    (nested depth .quoted).Deepens extra :=
  deepens_nested h fun _ => Nat.lt_or_eq_of_le

theorem deepens_ofIpNumber (number : Nat) (h : depth + extra < nestingLimit) :
    (ofIpNumber depth number).Deepens extra := by
  unfold ofIpNumber
  split
  case h_7 => exact deepens_nested_ipv4 h
  case h_8 => exact deepens_nested_ipv6 h
  case h_9 | h_10 => exact .inl trivial
  all_goals exact .inl h

theorem deepens_ofGrePayload (etherType : Nat) (h : depth + extra < nestingLimit) :
    (ofGrePayload depth etherType).Deepens extra := by
  unfold ofGrePayload
  split
  · exact deepens_nested_ipv4 h
  · exact deepens_nested_ipv6 h
  · exact .inl trivial

end Expected

theorem Finds.deepens {expected next : Expected} {rest : Bytes} {layer : Layer} {extra : Nat}
    (h : Finds rest expected layer next) (hwithin : expected.Within extra) :
    next.Deepens extra := by
  induction h with
  | ipv4 _ _ _ _ _ =>
      split
      · exact .inl trivial
      · exact Expected.deepens_ofIpNumber _ hwithin
  | ipv6 _ _ _ _ => exact Expected.deepens_ofIpNumber _ hwithin
  | quotedIpv4 _ _ _ ih | quotedIpv6 _ _ _ ih => exact ih hwithin
  | gre _ _ _ => exact Expected.deepens_ofGrePayload _ hwithin
  | icmp6Error _ _ => exact Expected.deepens_nested_quoted hwithin
  | ipv6Cut | tcp | udpCut | udp | sctp | icmp4Echo | icmp4 | icmp6Echo | icmp6Discovery
  | icmp6Report | icmp6 => exact .inl trivial
  | _ => exact hwithin.elim

theorem chain_nothing (ending : Ending) (rest : Bytes) :
    (chain (.nothing ending) rest).items = [] :=
  (scans_scan chainStep_advances _ rest).items_eq_nil_of_nothing

theorem Expected.AtLimit.chain_deepen {expected : Expected} {extra : Nat}
    (h : expected.AtLimit extra) (rest : Bytes) :
    (chain (expected.deepen extra) rest).items = [] := by
  obtain ⟨ending, hending⟩ := h.deepen_eq
  rw [hending, chain_nothing]

/-- A chain `extra` deeper finds the same headers, up to the first IP header that is at the
limit of nesting there. -/
theorem Scans.deepen {expected : Expected} {rest : Bytes} {found : Scanned Layer Ending}
    (h : Scans chainStep .silent expected rest found) {extra count : Nat}
    (hdeepens : expected.Deepens extra) (hcount : expected.Behind count) :
    ∃ init behind, found.items = init ++ behind ∧
      (chain (expected.deepen extra) rest).items = init.map (Layer.deepen extra) ∧
        ∀ next ∈ behind.head?, next.kind.isIp = true ∧
          count + ipLayers init + extra = Expected.nestingLimit := by
  induction h generalizing count with
  | @stop expected rest ending hmove =>
      refine ⟨[], [], rfl, ?_, fun _ hnone => absurd hnone (Option.not_mem_none _)⟩
      rcases hdeepens with hwithin | hlimit
      · rw [chain_eq, chainStep_deepen hwithin, hmove]
        rfl
      · exact hlimit.chain_deepen rest
  | @last expected next rest layer span hmove hspan =>
      obtain ⟨_, hfinds⟩ := chainStep_eq_take_iff.mp hmove
      rcases hdeepens with hwithin | hlimit
      · refine ⟨[layer], [], rfl, ?_, fun _ hnone => absurd hnone (Option.not_mem_none _)⟩
        have hcut : ¬Bytes.has rest span = true := by
          rw [Bytes.has_eq_true_iff]
          omega
        rw [chain_eq, chainStep_deepen hwithin, hmove, ChainMove.deepen]
        dsimp only
        rw [if_neg hcut]
        rfl
      · refine ⟨[], [layer], rfl, hlimit.chain_deepen rest, ?_⟩
        rintro _ ⟨⟩
        exact ⟨hlimit.isIp hfinds.yields, hlimit.count_eq hcount⟩
  | @take expected next rest layer span found hmove hspan hbehind ih =>
      obtain ⟨_, hfinds⟩ := chainStep_eq_take_iff.mp hmove
      rcases hdeepens with hwithin | hlimit
      · obtain ⟨init, behind, hitems, hdeeper, hhead⟩ :=
          ih (hfinds.deepens hwithin) (hfinds.behind hcount).1
        have hwhole : Bytes.has rest span = true := (Bytes.has_eq_true_iff rest span).mpr hspan
        refine ⟨layer :: init, behind, ?_, ?_, ?_⟩
        · rw [Scanned.cons_items, hitems, List.cons_append]
        · rw [chain_eq, chainStep_deepen hwithin, hmove, ChainMove.deepen]
          dsimp only
          rw [if_pos hwhole, Scanned.cons_items, hdeeper, List.map_cons]
        · rw [ipLayers_cons, ← Nat.add_assoc count]
          exact hhead
      · refine ⟨[], layer :: found.items, rfl, hlimit.chain_deepen rest, ?_⟩
        rintro _ ⟨⟩
        exact ⟨hlimit.isIp hfinds.yields, hlimit.count_eq hcount⟩

end Dissection
